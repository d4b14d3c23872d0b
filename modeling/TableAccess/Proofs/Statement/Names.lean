import Mathlib
import TableAccess.Proofs.Statement.Pieces
import TableAccess.Proofs.Statement.Raw
import TableAccess.Proofs.Text.Split
import TableAccess.Proofs.Text.Trim
import TableAccess.Statement.Bound

/-! The names in statements. A bound statement quotes its names, so they stand for themselves; a raw one
writes them bare, and in a bare name letters have no case. Under the same condition both name the
same table and the same columns exactly if no name has a capital letter (`names_agree_iff`): a table
that is called Users is another one to a count than to a search (`capitals_disagree`). -/

namespace TableAccess

namespace Text

/-- Letters, digits and underscores of ASCII, not beginning with a digit. -/
def isWord (cs : List Char) : Bool :=
  match cs with
  | [] => false
  | c :: rest => !c.isDigit && (c :: rest).all fun c => c.isAlphanum || c == '_'

/-- Words with dots between them. -/
def isQualified (name : String) : Bool := (split '.' name.toList).all isWord

theorem wordChar_of_isWord {cs : List Char} (h : isWord cs = true) {c : Char} (hc : c ∈ cs) :
    c.isAlphanum = true ∨ c = '_' := by
  cases cs with
  | nil => contradiction
  | cons first rest =>
    simp only [isWord, Bool.and_eq_true] at h
    simpa using List.all_eq_true.mp h.2 c hc

/-- Words with dots between them have no other characters. -/
theorem wordChar_of_mem_join {pieces : List (List Char)} (h : ∀ piece ∈ pieces, isWord piece = true)
    {c : Char} (hc : c ∈ join ['.'] pieces) : c = '.' ∨ c.isAlphanum = true ∨ c = '_' := by
  obtain h' | ⟨piece, hp, hm⟩ := mem_join hc
  · exact .inl (List.mem_singleton.mp h')
  · exact .inr (wordChar_of_isWord (h piece hp) hm)

theorem not_isBlank_of_wordChar {c : Char} (h : c = '.' ∨ c.isAlphanum = true ∨ c = '_') :
    isBlank c = false ∧ (c == '"') = false := by
  rcases h with rfl | h | rfl
  · decide
  · simp only [Char.isAlphanum, Char.isAlpha, Char.isUpper, Char.isLower, Char.isDigit,
      Bool.or_eq_true, Bool.and_eq_true, decide_eq_true_eq, UInt32.le_iff_toNat_le, ge_iff_le] at h
    have hn : 48 ≤ c.toNat ∧ c.toNat ≤ 122 := by
      have hc : c.toNat = c.val.toNat := rfl
      have hZ : 'Z'.val.toNat = 90 := rfl
      have hz : 'z'.val.toNat = 122 := rfl
      have h9 : '9'.val.toNat = 57 := rfl
      have hA : 'A'.val.toNat = 65 := rfl
      have ha : 'a'.val.toNat = 97 := rfl
      have h0 : '0'.val.toNat = 48 := rfl
      omega
    constructor
    · simp [isBlank]
      omega
    · rw [beq_eq_false_iff_ne]
      rintro rfl
      exact absurd hn.1 (by decide)
  · decide

theorem toLower_eq_self_iff (c : Char) : c.toLower = c ↔ c.isUpper = false := by
  constructor
  · intro h
    rw [← h]
    exact c.isUpper_toLower_eq_false
  · intro h
    exact Char.toLower_eq_of_not_isUpper (by simp [h])

end Text

namespace Fragment

/-- What a bare name stands for: letters have no case. -/
def folded (name : List String) : List String :=
  name.map fun part => String.ofList (part.toList.map Char.toLower)

/-- A name without capital letters. -/
def Uncapitalized (name : List String) : Prop :=
  ∀ part ∈ name, ∀ ch ∈ part.toList, ch.isUpper = false

instance (name : List String) : Decidable (Uncapitalized name) :=
  decidable_of_iff ((name.all fun part => part.toList.all fun ch => !ch.isUpper) = true)
    (by simp [Uncapitalized])

theorem map_eq_self_iff {α : Type} {f : α → α} {xs : List α} : xs.map f = xs ↔ ∀ x ∈ xs, f x = x := by
  conv_lhs => rw [← List.map_id xs, List.map_map]
  exact List.map_inj_left

theorem folded_eq_self_iff (name : List String) : folded name = name ↔ Uncapitalized name := by
  unfold folded Uncapitalized
  rw [map_eq_self_iff]
  refine forall₂_congr fun part _ => ?_
  rw [← String.toList_inj, String.toList_ofList, map_eq_self_iff]
  exact forall₂_congr fun ch _ => Text.toLower_eq_self_iff ch

end Fragment

namespace Statement

open Fragment (names bareText folded Uncapitalized)

namespace Raw

/-- A statement about the rows of a table that satisfy a condition, with its names apart from the
rest. What an update sets is not taken apart. -/
def pieces (verb table sets : String) (c : Condition) : List Fragment :=
  .words verb :: .field table :: .words sets :: c.wherePieces

theorem bareText_pieces (verb table sets : String) (c : Condition) :
    bareText (pieces verb table sets c) = verb ++ table ++ sets ++ c.clause := by
  rw [← c.bareText_wherePieces]
  simp [bareText, pieces, String.ofList_append, String.append_assoc]

theorem names_pieces (verb table sets : String) (c : Condition) :
    names (pieces verb table sets c) =
      (Text.split '.' table.toList).map String.ofList :: c.columns := by
  rw [← c.names_wherePieces]
  rfl

end Raw

namespace Bound

theorem table_qualified {table : String} {piece : List Char} {pieces : List (List Char)}
    (h : Text.isQualified table = true) (hs : Text.split '.' table.toList = piece :: pieces) :
    Bound.table (.text table) = .name (String.ofList piece ::
      if pieces = [] then [] else [String.ofList (Text.join ['.'] pieces)]) := by
  have hwords : ∀ p ∈ piece :: pieces, Text.isWord p = true := hs ▸ List.all_eq_true.mp h
  have hpiece : Text.trimBy isQuote piece = piece := Text.trimBy_of_forall fun c hc =>
    (Text.not_isBlank_of_wordChar (.inr (Text.wordChar_of_isWord (hwords piece (by simp)) hc))).2
  have hpieces : Text.trimBy isQuote (Text.join ['.'] pieces) = Text.join ['.'] pieces :=
    Text.trimBy_of_forall fun c hc => (Text.not_isBlank_of_wordChar
      (Text.wordChar_of_mem_join (fun p hp => hwords p (List.mem_cons_of_mem _ hp)) hc)).2
  have htrim : Text.trim (Value.text table).chars = table.toList := by
    refine Text.trimBy_of_forall fun c hc => ?_
    have hj := Text.join_split '.' table.toList
    rw [hs] at hj
    exact (Text.not_isBlank_of_wordChar (Text.wordChar_of_mem_join hwords (hj ▸ hc))).1
  have hcut := Text.cut_of_split hs
  rw [← htrim] at hcut
  unfold Bound.table
  by_cases hp : pieces = []
  · simp only [hcut, hp, if_true, hpiece]
  · simp only [hcut, hp, if_false, hpiece, hpieces]

theorem names_table (v : Value) : ∃ name, names [Bound.table v] = [name] := by
  unfold Bound.table
  dsimp only
  split <;> exact ⟨_, rfl⟩

theorem condition_tree {es : Entries} (h : es.WellFormed) :
    ∃ fs, condition (.map es) = .ok fs ∧ names fs = (Condition.tree es).columns := by
  have hc : Condition.ofValue (.map es) = .ok (.tree es) := Condition.ofEntries_ok_iff.mpr ⟨h, rfl⟩
  have hb := (Condition.tree es).names_bound
  unfold condition Condition.boundFragments?
  rw [hc]
  cases hn : (Condition.tree es).bound with
  | nil =>
    rw [hn] at hb
    exact ⟨[], by simp [hn, bind, Except.bind, pure, Except.pure], hb⟩
  | cons t line =>
    rw [hn] at hb
    exact ⟨.words " WHERE " :: _, by simp [hn, bind, Except.bind, pure, Except.pure], hb⟩

theorem find_tree {es : Entries} (table : Value) (h : es.WellFormed) :
    ∃ fs, find table (.map es) .null = .ok fs ∧
      names fs = names [Bound.table table] ++ (Condition.tree es).columns := by
  obtain ⟨fs, hfs, hnames⟩ := condition_tree h
  unfold find
  rw [hfs]
  refine ⟨_, rfl, ?_⟩
  rw [← hnames]
  simp only [List.append_nil, Fragment.names_append]
  rfl

end Bound

/-- The parts of a table name, bare and quoted: a quoted name has two parts at most. -/
theorem folded_table_iff {table : String} (qualified : Text.isQualified table = true) :
    [folded ((Text.split '.' table.toList).map String.ofList)] =
        names [Bound.table (.text table)] ↔
      (Text.split '.' table.toList).length ≤ 2 ∧
        Uncapitalized ((Text.split '.' table.toList).map String.ofList) := by
  obtain ⟨piece, pieces, hs⟩ := List.exists_cons_of_ne_nil (Text.split_ne_nil '.' table.toList)
  have hname : names [Bound.table (.text table)] = [_] :=
    congrArg (fun f => names [f]) (Bound.table_qualified qualified hs)
  rw [hname, hs, List.singleton_inj]
  match pieces with
  | [] => simpa using Fragment.folded_eq_self_iff [String.ofList piece]
  | [second] =>
    simpa [Text.join] using
      Fragment.folded_eq_self_iff [String.ofList piece, String.ofList second]
  | second :: third :: rest =>
    refine iff_of_false (fun he => ?_) fun hl => ?_
    · have hl := congrArg List.length he
      simp [folded] at hl
    · simp at hl

/-- Under the same condition, the raw statements about a table name what a search for bound values
names exactly if no name has a capital letter and the table is qualified once at most. -/
theorem names_agree_iff {table : String} (qualified : Text.isQualified table = true) {es : Entries}
    (wellFormed : es.WellFormed) :
    ∃ find, Bound.find (.text table) (.map es) .null = .ok find ∧
      Raw.select table (.map es) .null =
        .ok (bareText (Raw.pieces "SELECT * FROM " table "" (.tree es))) ∧
      Raw.count table (.map es) =
        .ok (bareText (Raw.pieces "SELECT count(id) FROM " table "" (.tree es))) ∧
      (∀ data : Entries, Raw.update table (.map data) (.map es) =
        .ok (bareText (Raw.pieces "UPDATE " table
          (" SET " ++ ", ".intercalate (data.map Raw.assignment)) (.tree es)))) ∧
      ∀ verb sets, (names (Raw.pieces verb table sets (.tree es))).map folded = names find ↔
        (Text.split '.' table.toList).length ≤ 2 ∧
          ∀ name ∈ names (Raw.pieces verb table sets (.tree es)), Uncapitalized name := by
  obtain ⟨find, hfind, hnames⟩ := Bound.find_tree (.text table) wellFormed
  refine ⟨find, hfind, ?_, ?_, fun data => ?_, fun verb sets => ?_⟩
  · rw [Raw.select_tree table wellFormed, Raw.bareText_pieces, String.append_empty]
    rfl
  · rw [Raw.count_tree table wellFormed, Raw.bareText_pieces, String.append_empty]
    rfl
  · rw [Raw.update_tree table wellFormed, Raw.bareText_pieces, Raw.updateWhere]
    simp only [String.append_assoc]
  · have hcolumns : (Condition.tree es).columns.map folded = (Condition.tree es).columns ↔
        ∀ name ∈ (Condition.tree es).columns, Uncapitalized name :=
      Fragment.map_eq_self_iff.trans (forall₂_congr fun _ _ => Fragment.folded_eq_self_iff _)
    obtain ⟨name, hname⟩ := Bound.names_table (.text table)
    rw [hnames, Raw.names_pieces, List.map_cons, List.forall_mem_cons, ← and_assoc,
      ← folded_table_iff qualified, ← hcolumns, hname, List.singleton_append, List.cons.injEq,
      List.singleton_inj]

/-- A search for the users whose age is above a limit, in small letters. -/
theorem names_agree_iff_small :
    let es : Entries := [("public.age >", .int 1)]
    Text.isQualified "public.users" = true ∧ es.WellFormed ∧
      ∃ find, Bound.find (.text "public.users") (.map es) .null = .ok find ∧
        Raw.count "public.users" (.map es) =
          .ok (bareText (Raw.pieces "SELECT count(id) FROM " "public.users" "" (.tree es))) ∧
        (names (Raw.pieces "SELECT count(id) FROM " "public.users" "" (.tree es))).map folded =
          names find := by
  intro es
  have qualified : Text.isQualified "public.users" = true := by decide +kernel
  have wellFormed : es.WellFormed := Condition.wellFormed_of_isSome es rfl
  obtain ⟨find, hfind, -, hcount, -, hiff⟩ := names_agree_iff qualified wellFormed
  refine ⟨qualified, wellFormed, find, hfind, hcount, (hiff _ _).mpr ⟨?_, ?_⟩⟩
  · decide +kernel
  · decide +kernel

/-- A count of other rows than those that a search finds. -/
theorem capitals_disagree :
    let es : Entries := [("Age >", .int 1)]
    Text.isQualified "Users" = true ∧ es.WellFormed ∧
      Raw.count "Users" (.map es) = .ok "SELECT count(id) FROM Users WHERE Age > 1" ∧
      (names (Raw.pieces "SELECT count(id) FROM " "Users" "" (.tree es))).map folded =
        [["users"], ["age"]] ∧
      ∃ find, Bound.find (.text "Users") (.map es) .null = .ok find ∧
        Fragment.text find = "SELECT * FROM \"Users\" WHERE \"Age\" > %s" ∧
        names find = [["Users"], ["Age"]] := by
  intro es
  exact ⟨by decide +kernel, Condition.wellFormed_of_isSome es rfl, rfl, rfl, _, rfl, rfl, rfl⟩

end Statement

end TableAccess
