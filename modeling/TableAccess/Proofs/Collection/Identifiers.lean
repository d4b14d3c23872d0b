import Mathlib.Data.List.Forall2
import TableAccess.Proofs.Collection.Bulk
import TableAccess.Proofs.Number.Digits
import TableAccess.Proofs.Number.Figures
import TableAccess.Proofs.Text.Doubled
import TableAccess.Proofs.Text.Listed

/-! What the identifiers of rows say in a statement. After an update of many rows, and to remove them, the
rows are named by a list of their identifiers, each written as its bare text. A whole number is a constant
for itself, but neither null nor any text is: to be written like the constant for it, a text would have to
begin with more quotes than it has (`append_ne_double`). So the list names the selected rows exactly if all
their identifiers are whole numbers (`selected_keys_named_iff`). -/

namespace TableAccess

open Text (listMarks others inParentheses sqlString)
open Number (IsFigures wholeText digitsValue)

/-! ### Constants -/

/-- What a database has for the identifier of a row. -/
inductive Key where
  | null
  | whole (n : Int)
  | text (s : String)

namespace Key

def value : Key → Value
  | null => .null
  | whole n => .int n
  | text s => .text s

/-- The bare text of an identifier. -/
def written (key : Key) : List Char := key.value.chars

/-- The constants of a statement and what they stand for: the word for null in letters of either size,
decimal digits with or without a sign, and texts in quotes. -/
inductive Denotes : List Char → Key → Prop
  | null {cs : List Char} (word : cs.map Char.toUpper = "NULL".toList) : Denotes cs .null
  | whole {cs digits : List Char} {negative : Bool} (sign : Number.readSign cs = (negative, digits))
      (nonempty : digits ≠ []) (figures : ∀ c ∈ digits, c.isDigit = true) :
      Denotes cs (.whole (if negative then -(digitsValue digits : Int) else digitsValue digits))
  | text (s : String) : Denotes (sqlString s.toList) (.text s)

/-- A text that begins with a list of constants, one for each key, and goes on with `rest`. -/
def Names (cs : List Char) (keys : List Key) (rest : List Char) : Prop :=
  ∃ constants, List.Forall₂ Denotes constants keys ∧ cs = inParentheses id constants ++ rest

variable {key other : Key} {keys found : List Key} {cs constant rest rest' : List Char}

theorem notMem_listMarks (h : IsFigures cs) : ∀ c ∈ cs, c ∉ listMarks := by
  intro c hc hmark
  simp only [listMarks, List.mem_cons, List.not_mem_nil, or_false] at hmark
  obtain rfl | rfl := hmark <;> exact absurd (h _ hc) (by decide)

theorem isFigures_of_null (h : cs.map Char.toUpper = "NULL".toList) : IsFigures cs := by
  have hword : IsFigures "NULL".toList := by decide
  exact fun c hc => Number.isFigure_of_toUpper (hword _ (h ▸ List.mem_map_of_mem hc))

theorem isFigures_of_whole {digits : List Char} {negative : Bool}
    (sign : Number.readSign cs = (negative, digits)) (figures : ∀ c ∈ digits, c.isDigit = true) :
    IsFigures cs := by
  have hdigits : IsFigures digits := fun c hc => by
    simp [Number.isFigure, Char.isAlphanum, figures c hc]
  unfold Number.readSign at sign
  split at sign <;> obtain ⟨-, rfl⟩ := Prod.mk.inj sign
  · exact hdigits.cons (by decide)
  · exact hdigits.cons (by decide)
  · exact hdigits

namespace Denotes

theorem ne_nil (h : Denotes cs key) : cs ≠ [] := by
  intro hnil
  cases h with
  | null word => simp [hnil] at word
  | whole sign nonempty _ =>
    rw [hnil] at sign
    exact nonempty (Prod.mk.inj sign).2.symm
  | text s => simp [sqlString] at hnil

theorem quoted_or_figures (h : Denotes cs key) : cs.head? = some '\'' ∨ IsFigures cs := by
  cases h with
  | null word => exact .inr (isFigures_of_null word)
  | whole sign _ figures => exact .inr (isFigures_of_whole sign figures)
  | text s => exact .inl rfl

theorem not_none : ¬ Denotes "None".toList key := by
  intro h
  generalize hcs : "None".toList = cs at h
  cases h with
  | null word =>
    subst hcs
    exact absurd word (by decide)
  | whole sign _ figures =>
    have hsign : Number.readSign "None".toList = (false, "None".toList) := rfl
    obtain ⟨-, rfl⟩ := Prod.mk.inj (hsign.symm.trans (hcs ▸ sign))
    exact absurd (figures 'N' (by decide)) (by decide)
  | text s =>
    have hfirst : some 'N' = some '\'' := congrArg List.head? hcs
    exact absurd hfirst (by decide)

theorem of_wholeText (n : Int) : Denotes (wholeText n) (.whole n) := by
  have h := Denotes.whole (Number.readSign_wholeText n) Nat.toDigits_ne_nil
    fun c => Number.isDigit_of_mem_toDigits
  have hvalue : (if decide (n < 0) = true then -(digitsValue (Nat.toDigits 10 n.natAbs) : Int)
      else digitsValue (Nat.toDigits 10 n.natAbs)) = n := by
    simp only [Number.digitsValue_toDigits, decide_eq_true_eq]
    split <;> omega
  rwa [hvalue] at h

/-- The text of a whole number is a constant for this number only. -/
theorem wholeText_iff {n : Int} : Denotes (wholeText n) key ↔ key = .whole n := by
  refine ⟨fun h => ?_, fun h => h ▸ of_wholeText n⟩
  have hown := of_wholeText n
  generalize hcs : wholeText n = cs at h hown
  cases h with
  | null word =>
    -- the digits of the number are no capitals
    obtain ⟨d, ds, hd⟩ := List.exists_cons_of_ne_nil (Nat.toDigits_ne_nil (n := n.natAbs) (b := 10))
    have hdigit : d ∈ Nat.toDigits 10 n.natAbs := hd ▸ List.mem_cons_self
    have hmem : d ∈ cs := hcs ▸ (Number.toDigits_suffix_wholeText n).subset hdigit
    have hupper : d.toUpper ∈ "NULL".toList := word ▸ List.mem_map_of_mem hmem
    exact absurd hupper (Number.of_decimalDigits (p := (·.toUpper ∉ "NULL".toList)) (by decide)
      (Number.isDigit_of_mem_toDigits hdigit))
  | whole sign _ _ =>
    cases hown with
    | whole hsign _ _ =>
      obtain ⟨rfl, rfl⟩ := Prod.mk.inj (sign.symm.trans hsign)
      rfl
  | text s =>
    have hquote : '\'' ∈ wholeText n := hcs ▸ List.mem_cons_self
    exact absurd hquote (Number.isFigures_wholeText n).quote_notMem

end Denotes

/-! ### Lists of constants -/

/-- Where a word or a number is written, no constant stands but this one. -/
theorem Denotes.of_append_others {xs ys : List (List Char)} (h : Denotes constant key) (hne : cs ≠ [])
    (hcs : IsFigures cs)
    (heq : cs ++ others id xs rest = constant ++ others id ys rest') :
    Denotes cs key ∧ others id xs rest = others id ys rest' := by
  obtain hquoted | hfigures := h.quoted_or_figures
  · obtain ⟨c, more, rfl⟩ := List.exists_cons_of_ne_nil hne
    obtain ⟨d, ds, rfl⟩ := List.exists_cons_of_ne_nil h.ne_nil
    obtain rfl := Option.some.inj hquoted
    obtain rfl := (List.cons.inj heq).1
    exact absurd List.mem_cons_self hcs.quote_notMem
  · obtain ⟨rfl, hothers⟩ :=
      Text.append_others_inj (notMem_listMarks hcs) (notMem_listMarks hfigures) heq
    exact ⟨h, hothers⟩

/-- No text is written in a list like the constant for it. -/
theorem text_append_others_ne (s : String) {xs ys : List (List Char)} :
    s.toList ++ others id xs rest ≠ sqlString s.toList ++ others id ys rest' := by
  intro heq
  obtain ⟨c, hc, cs, hcs⟩ := Text.others_eq_cons id xs rest
  have hhead : (others id xs rest).head? ≠ some '\'' := by
    rw [hcs]
    rintro ⟨⟩
    exact absurd hc (by decide)
  have hquotes : sqlString s.toList ++ others id ys rest' =
      List.replicate 1 '\'' ++ (Text.double '\'' s.toList ++ '\'' :: others id ys rest') := by
    simp [sqlString]
  exact Text.append_ne_double hhead 0 (heq.trans hquotes)

/-- Where identifiers are written and constants stand, a constant for the first of the identifiers, or any
constant if that is a whole number, is its own: then it is a whole number, and the lists go on alike. -/
theorem Denotes.of_written_append_others {xs ys : List (List Char)} (h : Denotes constant other)
    (hsame : other = key ∨ ∃ n, key = .whole n)
    (heq : key.written ++ others id xs rest = constant ++ others id ys rest') :
    (∃ n, key = .whole n) ∧ other = key ∧ others id xs rest = others id ys rest' := by
  cases key with
  | null =>
    have hword : IsFigures "None".toList := by decide
    obtain ⟨hnone, -⟩ := h.of_append_others (List.cons_ne_nil _ _) hword heq
    exact absurd hnone Denotes.not_none
  | whole n =>
    have hne : wholeText n ≠ [] := (Denotes.of_wholeText n).ne_nil
    obtain ⟨hwhole, hothers⟩ := h.of_append_others hne (Number.isFigures_wholeText n) heq
    exact ⟨⟨n, rfl⟩, Denotes.wholeText_iff.mp hwhole, hothers⟩
  | text s =>
    -- a text like 7 or NULL may stand for another identifier, but never for itself
    obtain rfl | ⟨n, hn⟩ := hsame
    · generalize hkey : Key.text s = key at h
      cases h <;> cases hkey
      exact absurd heq (text_append_others_ne s)
    · cases hn

theorem Denotes.not_closing {cs : List Char} : ¬ Denotes (')' :: cs) key := by
  intro h
  obtain hquoted | hfigures := h.quoted_or_figures
  · exact absurd (Option.some.inj hquoted) (by decide)
  · exact absurd (hfigures ')' List.mem_cons_self) (by decide)

theorem Denotes.inParentheses_ne {constants : List (List Char)} (h : Denotes constant key) :
    inParentheses id [] ++ rest ≠ inParentheses id (constant :: constants) ++ rest' := by
  intro heq
  obtain ⟨c, cs, rfl⟩ := List.exists_cons_of_ne_nil h.ne_nil
  rw [Text.inParentheses_append] at heq
  obtain rfl := (List.cons.inj (List.cons.inj heq).2).1
  exact h.not_closing

/-- Constant by constant, a list that is written for identifiers is found to be one of whole numbers, and
of these identifiers. -/
theorem of_others_written_eq {constants : List (List Char)}
    (hconstants : List.Forall₂ Denotes constants found)
    (hsame : found = keys ∨ ∀ key ∈ keys, ∃ n, key = .whole n)
    (heq : others id (keys.map written) rest = others id constants rest') :
    (∀ key ∈ keys, ∃ n, key = .whole n) ∧ found = keys ∧ rest' = rest := by
  induction keys generalizing constants found with
  | nil =>
    cases hconstants with
    | nil => exact ⟨by simp, rfl, (List.cons.inj heq).2.symm⟩
    | cons _ _ =>
      rw [Text.others_cons] at heq
      exact absurd (List.cons.inj heq).1 (by decide)
  | cons key keys ih =>
    rw [List.map_cons, Text.others_cons] at heq
    cases hconstants with
    | nil => exact absurd (List.cons.inj heq).1 (by decide)
    | cons h hmore =>
      rw [Text.others_cons] at heq
      obtain ⟨hwhole, rfl, hothers⟩ := h.of_written_append_others
        (hsame.imp (fun h => (List.cons.inj h).1) fun h => h key List.mem_cons_self)
        (List.cons.inj heq).2
      obtain ⟨hkeys, rfl, hrest⟩ := ih hmore
        (hsame.imp (fun h => (List.cons.inj h).2) fun h key hkey => h key (List.mem_cons_of_mem _ hkey))
        hothers
      exact ⟨List.forall_mem_cons.mpr ⟨hwhole, hkeys⟩, rfl, hrest⟩

theorem of_names (h : Names (inParentheses id (keys.map written) ++ rest) found rest')
    (hsame : found = keys ∨ ∀ key ∈ keys, ∃ n, key = .whole n) :
    (∀ key ∈ keys, ∃ n, key = .whole n) ∧ found = keys ∧ rest' = rest := by
  obtain ⟨constants, hconstants, heq⟩ := h
  cases keys with
  | nil =>
    cases hconstants with
    | nil => exact ⟨by simp, rfl, (List.append_cancel_left heq).symm⟩
    | cons h _ => exact absurd heq h.inParentheses_ne
  | cons key keys =>
    cases hconstants with
    | nil =>
      obtain hnil | hwhole := hsame
      · cases hnil
      · obtain ⟨n, rfl⟩ := hwhole key List.mem_cons_self
        exact absurd heq.symm (Denotes.of_wholeText n).inParentheses_ne
    | cons h hmore =>
      exact of_others_written_eq (.cons h hmore) hsame (Text.others_eq_of_inParentheses heq)

theorem names_written_iff : Names (inParentheses id (keys.map written) ++ rest) keys rest ↔
    ∀ key ∈ keys, ∃ n, key = .whole n := by
  refine ⟨fun h => (of_names h (.inl rfl)).1, fun h => ⟨keys.map written, ?_, rfl⟩⟩
  rw [List.forall₂_map_left_iff, List.forall₂_same]
  intro key hkey
  obtain ⟨n, rfl⟩ := h key hkey
  exact Denotes.of_wholeText n

theorem listed_values (keys : List Key) :
    '(' :: (Statement.Raw.idList (keys.map value)).toList ++ [')'] =
      inParentheses id (keys.map written) := by
  have hwritten : ((keys.map value).map Value.toText).map String.toList = keys.map written := by
    simp [Value.toText, written]
  rw [Statement.Raw.idList, String.toList_intercalate, hwritten]
  exact Text.inParentheses_intercalate _

end Key

namespace Collection

open Statement

theorem toList_idsClause (before list : String) : (before ++ " WHERE id IN (" ++ list ++ ")").toList =
    (before ++ " WHERE id IN ").toList ++ ('(' :: list.toList ++ [')']) := by
  have hopening : " WHERE id IN (".toList = " WHERE id IN ".toList ++ ['('] := by decide
  have hclosing : ")".toList = [')'] := by decide
  simp only [String.toList_append, hopening, hclosing, List.append_assoc, List.cons_append,
    List.nil_append]

/-- The rows that are selected for an update or a removal are named by the list of their identifiers. It is
a list of constants, one for each of them, exactly if all are whole numbers; and then it is no other list of
constants, so no other row is read again or deleted. -/
theorem selected_keys_named_iff {rows : List Entries} {keys : List Key}
    (h : rows.map Entries.identifier = keys.map Key.value) :
    let ids := rows.map Entries.identifier
    let listed := '(' :: (Raw.idList ids).toList ++ [')']
    (∀ table sets condition answer, rows ≠ [] →
      removalPlan table condition [.list (rows.map .map)] = some (Raw.deleteIds table ids) ∧
      updatePlan table sets condition [.list (rows.map .map), answer] =
        some (Raw.selectIds table ids)) ∧
    (∀ table : String,
      (Raw.deleteIds table ids).toList = ("DELETE FROM " ++ table ++ " WHERE id IN ").toList ++ listed ∧
      (Raw.selectIds table ids).toList = ("SELECT * FROM " ++ table ++ " WHERE id IN ").toList ++ listed) ∧
    ∀ rest, (Key.Names (listed ++ rest) keys rest ↔ ∀ key ∈ keys, ∃ n, key = .whole n) ∧
      ((∀ key ∈ keys, ∃ n, key = .whole n) → ∀ found rest', Key.Names (listed ++ rest) found rest' →
        found = keys ∧ rest' = rest) := by
  intro ids listed
  have hlisted : listed = inParentheses id (keys.map Key.written) := by
    rw [← Key.listed_values, ← h]
  refine ⟨fun table sets condition answer hne => ⟨?_, ?_⟩, fun table => ⟨?_, ?_⟩, fun rest => ⟨?_, ?_⟩⟩
  · have hsome : (Value.list (rows.map .map)).ids.isEmpty = false := by simpa using hne
    rw [removalPlan, hsome, Value.ids_rows]
    rfl
  · rw [updatePlan, Value.ids_rows]
    rfl
  · exact toList_idsClause _ _
  · exact toList_idsClause _ _
  · rw [hlisted]
    exact Key.names_written_iff
  · intro hwhole found rest' hnames
    rw [hlisted] at hnames
    exact (Key.of_names hnames (.inr hwhole)).2

/-- Two rows with whole numbers, one of them below zero. -/
theorem selected_keys_named :
    let rows : List Entries := [[("id", .int 7), ("name", .text "ann")], [("id", .int (-12))]]
    let keys : List Key := [.whole 7, .whole (-12)]
    (∀ condition, removalPlan "users" condition [.list (rows.map .map)] =
      some "DELETE FROM users WHERE id IN (7,-12)") ∧
    Key.Names "(7,-12)".toList keys [] ∧
    ∀ found rest, Key.Names "(7,-12)".toList found rest → found = keys ∧ rest = [] := by
  intro rows keys
  obtain ⟨hplans, -, hnamed⟩ := @selected_keys_named_iff rows keys rfl
  have hwhole : ∀ key ∈ keys, ∃ n, key = .whole n := by simp [keys]
  obtain ⟨hnames, hsole⟩ := hnamed []
  have hlisted : '(' :: (Raw.idList (rows.map Entries.identifier)).toList ++ [')'] = "(7,-12)".toList := by
    decide +kernel
  have hdelete : Raw.deleteIds "users" (rows.map Entries.identifier) =
      "DELETE FROM users WHERE id IN (7,-12)" := by decide +kernel
  rw [List.append_nil, hlisted] at hnames hsole
  refine ⟨fun condition => ?_, hnames.mpr hwhole, hsole hwhole⟩
  rw [(hplans "users" [] condition .null (by simp [rows])).1, hdelete]

/-- A text is listed without quotes, and null as another word. A text with a parenthesis ends the list,
and the rest of the statement is its own. -/
theorem text_keys_unnamed :
    let rows : List Entries := [[("id", .text "ann")], [("id", .null)]]
    (∀ condition, removalPlan "users" condition [.list (rows.map .map)] =
      some "DELETE FROM users WHERE id IN (ann,None)") ∧
    ¬ Key.Names "(ann,None)".toList [.text "ann", .null] [] ∧
    Raw.deleteIds "users" [.text "1) OR (1=1"] = "DELETE FROM users WHERE id IN (1) OR (1=1)" ∧
    Key.Names "(1) OR (1=1)".toList [.whole 1] " OR (1=1)".toList := by
  intro rows
  have hdelete : Raw.deleteIds "users" (rows.map Entries.identifier) =
      "DELETE FROM users WHERE id IN (ann,None)" := by decide +kernel
  refine ⟨fun condition => ?_, fun h => ?_, by decide +kernel, [['1']], ?_, by decide +kernel⟩
  · exact congrArg some hdelete
  · obtain ⟨hwhole, -⟩ := @Key.of_names [.text "ann", .null] _ [] [] h (.inl rfl)
    obtain ⟨n, hn⟩ := hwhole _ List.mem_cons_self
    cases hn
  · exact .cons (Key.Denotes.of_wholeText 1) .nil

end Collection

end TableAccess
