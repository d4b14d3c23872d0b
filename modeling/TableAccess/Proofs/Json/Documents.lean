import TableAccess.Proofs.Json.Strings
import TableAccess.Proofs.Number.Digits
import TableAccess.Value.Text

/-! JSON documents that are written and read back. A document is made of nulls, truth values, whole
numbers that are not too long, texts without halves of surrogate pairs that could be taken for a pair,
and lists, tuples and mappings of such (`Plain`). The reader takes
exactly the text of a document from what follows it, as long as no number goes on there, and gives the
document back with its tuples as lists (`readValue_jsonText`). The induction is on the document, with one
lemma for the items of a list and one for the entries of a mapping. No document is deeper than its text is
long, so all of them are read back (`read_jsonText`). -/

namespace TableAccess

open Number

mutual
/-- A value with lists in the place of its tuples. -/
def Value.listed : Value → Value
  | .list xs => .list (listedItems xs)
  | .tuple xs => .list (listedItems xs)
  | .map es => .map (listedEntries es)
  | v => v

def Value.listedItems : List Value → List Value
  | [] => []
  | x :: xs => x.listed :: listedItems xs

def Value.listedEntries : Entries → Entries
  | [] => []
  | (k, x) :: es => (k, x.listed) :: listedEntries es
end

namespace Json

/-- Documents with at most so many lists and mappings inside one another. -/
inductive Plain : Nat → Value → Prop
  | null {depth : Nat} : Plain depth .null
  | bool {depth : Nat} (b : Bool) : Plain depth (.bool b)
  | int {depth : Nat} {n : Int} : (Nat.toDigits 10 n.natAbs).length ≤ digitLimit → Plain depth (.int n)
  | text {depth : Nat} (s : String) : Plain depth (.text s)
  | ragged {depth : Nat} {t : Text.Ragged} : Text.Apart t.points → Plain depth (.ragged t)
  | list {depth : Nat} {xs : List Value} : (∀ x ∈ xs, Plain depth x) → Plain (depth + 1) (.list xs)
  | tuple {depth : Nat} {xs : List Value} : (∀ x ∈ xs, Plain depth x) → Plain (depth + 1) (.tuple xs)
  | map {depth : Nat} {es : Entries} :
      es.keys.Nodup → (∀ e ∈ es, Plain depth e.2) → Plain (depth + 1) (.map es)

/-- What may stand behind a document: no digit, point or exponent with which a number would go on. -/
def Ends (rest : List Char) : Prop :=
  ∀ c ∈ rest.head?, c.isDigit = false ∧ c ≠ '.' ∧ c ≠ 'e' ∧ c ≠ 'E'

theorem ends_cons {c : Char} (h : c.isDigit = false ∧ c ≠ '.' ∧ c ≠ 'e' ∧ c ≠ 'E')
    (rest : List Char) : Ends (c :: rest) := by
  rintro _ ⟨⟩
  exact h

/-! ### Words and numbers -/

theorem readWholePart_digits {n : Nat} {rest : List Char} (h : ∀ c ∈ rest.head?, c.isDigit = false) :
    readWholePart (Nat.toDigits 10 n ++ rest) = some (Nat.toDigits 10 n, rest) := by
  rcases eq_or_ne n 0 with rfl | hn
  · rfl
  have hdigits : ∀ c ∈ Nat.toDigits 10 n, c.isDigit = true := fun c => isDigit_of_mem_toDigits
  have hne : Nat.toDigits 10 n ≠ [] := Nat.toDigits_ne_nil
  have hzero : ∀ cs, Nat.toDigits 10 n ++ rest = '0' :: cs → False := by
    intro cs hcs
    obtain ⟨c, ds, hds⟩ := List.exists_cons_of_ne_nil hne
    rw [hds, List.cons_append] at hcs
    exact head?_toDigits hn (by rw [hds, (List.cons.inj hcs).1]; rfl)
  have htake : rest.takeWhile Char.isDigit = [] := by
    cases rest with
    | nil => rfl
    | cons c cs => exact List.takeWhile_cons_of_neg (by simp [h c rfl])
  rw [readWholePart.eq_2 _ hzero, List.takeWhile_append_of_pos hdigits,
    List.dropWhile_append_of_pos hdigits, htake, Text.dropWhile_eq_self h, List.append_nil]
  simp [hne]

theorem readFraction_of_ends {rest : List Char} (h : Ends rest) : readFraction rest = ([], rest) :=
  readFraction.eq_2 rest fun cs hcs => (h '.' (by rw [hcs]; rfl)).2.1 rfl

theorem readExponent_of_ends {rest : List Char} (h : Ends rest) : readExponent rest = (none, rest) := by
  cases rest with
  | nil => rfl
  | cons c cs =>
    obtain ⟨-, -, he, hE⟩ := h c rfl
    exact if_neg (not_or.mpr ⟨he, hE⟩)

theorem readNumber_digits (negative : Bool) {n : Nat} {rest : List Char}
    (h : (Nat.toDigits 10 n).length ≤ digitLimit) (hrest : Ends rest) :
    readNumber negative (Nat.toDigits 10 n ++ rest) =
      some (.int (if negative then -n else n), rest) := by
  have hwhole := readWholePart_digits (n := n) fun c hc => (hrest c hc).1
  simp [readNumber, hwhole, readFraction_of_ends hrest, readExponent_of_ends hrest,
    Nat.not_lt.mpr h, digitsValue_toDigits]

/-- No word begins with a digit. -/
theorem readWord_digits {c : Char} (h : c.isDigit = true) (cs : List Char) :
    readWord (c :: cs) = none := by
  obtain ⟨hn, ht, hf, hN, hI, hminus⟩ :=
    of_decimalDigits (p := fun d => 'n' ≠ d ∧ 't' ≠ d ∧ 'f' ≠ d ∧ 'N' ≠ d ∧ 'I' ≠ d ∧ '-' ≠ d)
      (by decide) h
  simp [readWord, dropWord, hn, ht, hf, hN, hI, hminus]

theorem readWord_minus {c : Char} (h : c.isDigit = true) (cs : List Char) :
    readWord ('-' :: c :: cs) = none := by
  have hne : 'I' ≠ c := by
    rintro rfl
    contradiction
  simp [readWord, dropWord, hne]

/-! ### Lists and mappings -/

variable {style : Value.JsonStyle}

/-- Separators that are what they have to be, with nothing but blanks behind it. -/
structure Separates (style : Value.JsonStyle) : Prop where
  item : ∃ blanks, style.item = ',' :: blanks ∧ ∀ c ∈ blanks, isSpace c = true
  entry : ∃ blanks, style.entry = ':' :: blanks ∧ ∀ c ∈ blanks, isSpace c = true

theorem separates_spaced : Separates .spaced :=
  ⟨⟨[' '], rfl, by simp [isSpace]⟩, ⟨[' '], rfl, by simp [isSpace]⟩⟩

/-- A text that begins like a document. -/
def Starts (cs : List Char) : Prop := ∃ c ds, cs = c :: ds ∧ isSpace c = false ∧ c ≠ ']'

theorem Starts.append {cs : List Char} (h : Starts cs) (ds : List Char) : Starts (cs ++ ds) := by
  obtain ⟨c, cs, rfl, hc⟩ := h
  exact ⟨c, cs ++ ds, rfl, hc⟩

theorem skipSpace_starts {blanks cs : List Char} (hblanks : ∀ c ∈ blanks, isSpace c = true)
    (h : Starts cs) : skipSpace (blanks ++ cs) = cs := by
  obtain ⟨c, ds, rfl, hc, -⟩ := h
  rw [skipSpace, List.dropWhile_append_of_pos hblanks, List.dropWhile_cons_of_neg (by simp [hc])]

/-- The reader takes the text of a value from what follows it, and gives the value back. -/
structure Reads (style : Value.JsonStyle) (depth : Nat) (v : Value) : Prop where
  starts : Starts (v.jsonText style)
  reads : ∀ fuel rest, 2 * (v.jsonText style).length ≤ fuel → Ends rest →
    readValue fuel depth (v.jsonText style ++ rest) = some (v.listed, rest)

theorem starts_jsonItems {depth : Nat} {x : Value} (h : Reads style depth x) (xs : List Value) :
    Starts (Value.jsonItems style (x :: xs)) := by
  cases xs with
  | nil => exact h.starts
  | cons y ys =>
    rw [Value.jsonItems, List.append_assoc]
    · exact h.starts.append _
    · simp

theorem readItems_jsonItems (hstyle : Separates style) {depth : Nat} {xs : List Value}
    (h : ∀ x ∈ xs, Reads style depth x) (hne : xs ≠ []) {fuel : Nat}
    (hfuel : 2 * (Value.jsonItems style xs).length < fuel) (rest : List Char) :
    readItems fuel depth (Value.jsonItems style xs ++ ']' :: rest) =
      some (Value.listedItems xs, rest) := by
  obtain ⟨blanks, hitem, hblanks⟩ := hstyle.item
  induction xs generalizing fuel with
  | nil => exact absurd rfl hne
  | cons x xs ih =>
    obtain ⟨hx, hxs⟩ := List.forall_mem_cons.mp h
    obtain ⟨fuel, rfl⟩ := Nat.exists_eq_succ_of_ne_zero (Nat.ne_zero_of_lt hfuel)
    cases xs with
    | nil =>
      have hread := hx.reads fuel (']' :: rest) (Nat.le_of_lt_succ hfuel) (ends_cons (by decide) rest)
      rw [readItems, Value.jsonItems, hread]
      rfl
    | cons y ys =>
      have htext : Value.jsonItems style (x :: y :: ys) =
          x.jsonText style ++ ',' :: (blanks ++ Value.jsonItems style (y :: ys)) := by
        simp [Value.jsonItems, hitem]
      rw [htext] at hfuel
      simp only [List.length_append, List.length_cons] at hfuel
      have hread := hx.reads fuel (',' :: (blanks ++ (Value.jsonItems style (y :: ys) ++ ']' :: rest)))
        (by omega) (ends_cons (by decide) _)
      have hskip := skipSpace_starts hblanks
        ((starts_jsonItems (hxs y (by simp)) ys).append (']' :: rest))
      have hrest := @ih hxs (List.cons_ne_nil _ _) fuel (by omega)
      rw [htext, List.append_assoc, List.cons_append, List.append_assoc, readItems, hread]
      show (readItems fuel depth (skipSpace _)).map _ = _
      rw [hskip, hrest]
      rfl

theorem put_of_notMem {es : Entries} {k : String} (h : k ∉ es.keys) (v : Value) :
    es.put k v = es ++ [(k, v)] := by
  induction es with
  | nil => rfl
  | cons e es ih =>
    obtain ⟨hk, hes⟩ := List.ne_and_not_mem_of_not_mem_cons h
    rw [Entries.put, if_neg (Ne.symm hk), ih hes]
    rfl

/-- One entry, with the brace that closes the mapping behind it or with the comma that leads to the
next one. -/
theorem readEntries_entry (hstyle : Separates style) {depth : Nat} {x : Value}
    (hx : Reads style depth x) {fuel : Nat} (hfuel : 2 * (x.jsonText style).length ≤ fuel) (k : String)
    (es : Entries) (rest : List Char) :
    readEntries (fuel + 1) depth es
        (Text.jsonString k.toList ++ style.entry ++ x.jsonText style ++ '\x7d' :: rest) =
      some (es.put k x.listed, rest) ∧
    readEntries (fuel + 1) depth es
        (Text.jsonString k.toList ++ style.entry ++ x.jsonText style ++ ',' :: rest) =
      readEntries fuel depth (es.put k x.listed) (skipSpace rest) := by
  obtain ⟨blanks, hentry, hblanks⟩ := hstyle.entry
  have htext (after : List Char) : Text.jsonString k.toList ++ style.entry ++ x.jsonText style ++ after =
      '"' :: (k.toList.flatMap Text.jsonChar ++ '"' :: ':' ::
        (blanks ++ (x.jsonText style ++ after))) := by
    simp [Text.jsonString, hentry]
  have hcolon (cs : List Char) : skipSpace (':' :: cs) = ':' :: cs := rfl
  have hclose : skipSpace ('\x7d' :: rest) = '\x7d' :: rest := rfl
  have hcomma : skipSpace (',' :: rest) = ',' :: rest := rfl
  have hskip (after : List Char) := skipSpace_starts hblanks (hx.starts.append after)
  constructor
  · simp only [htext, readEntries, readString_jsonString, hcolon, hskip, hclose,
      hx.reads fuel ('\x7d' :: rest) hfuel (ends_cons (by decide) rest), Text.shown_chars,
      String.ofList_toList]
  · simp only [htext, readEntries, readString_jsonString, hcolon, hskip, hcomma,
      hx.reads fuel (',' :: rest) hfuel (ends_cons (by decide) rest), Text.shown_chars,
      String.ofList_toList]

/-- A mapping begins with the quote of its first key. -/
theorem jsonEntries_cons (style : Value.JsonStyle) (e : String × Value) (es : Entries) :
    ∃ cs, Value.jsonEntries style (e :: es) = '"' :: cs := by
  obtain ⟨k, x⟩ := e
  have hkey (cs : List Char) : ∃ ds, Text.jsonString k.toList ++ cs = '"' :: ds := ⟨_, rfl⟩
  cases es with
  | nil =>
    rw [Value.jsonEntries, List.append_assoc]
    exact hkey _
  | cons f fs =>
    rw [Value.jsonEntries, List.append_assoc, List.append_assoc, List.append_assoc]
    · exact hkey _
    · simp

theorem starts_jsonEntries (e : String × Value) (es : Entries) :
    Starts (Value.jsonEntries style (e :: es)) := by
  obtain ⟨cs, hcs⟩ := jsonEntries_cons style e es
  exact ⟨'"', cs, hcs, by decide, by decide⟩

theorem readEntries_jsonEntries (hstyle : Separates style) {depth : Nat} {es : Entries}
    (h : ∀ e ∈ es, Reads style depth e.2) (hne : es ≠ []) {before : Entries}
    (distinct : (before.keys ++ es.keys).Nodup) {fuel : Nat}
    (hfuel : 2 * (Value.jsonEntries style es).length < fuel) (rest : List Char) :
    readEntries fuel depth before (Value.jsonEntries style es ++ '\x7d' :: rest) =
      some (before ++ Value.listedEntries es, rest) := by
  obtain ⟨blanks, hitem, hblanks⟩ := hstyle.item
  induction es generalizing fuel before with
  | nil => exact absurd rfl hne
  | cons e es ih =>
    obtain ⟨k, x⟩ := e
    have hx : Reads style depth x := h (k, x) (by simp)
    obtain ⟨fuel, rfl⟩ := Nat.exists_eq_succ_of_ne_zero (Nat.ne_zero_of_lt hfuel)
    have hput : before.put k x.listed = before ++ [(k, x.listed)] := by
      refine put_of_notMem (fun hk => ?_) _
      exact (List.nodup_append.mp distinct).2.2 k hk k (List.mem_cons_self ..) rfl
    cases es with
    | nil =>
      rw [Value.jsonEntries] at hfuel ⊢
      simp only [List.length_append] at hfuel
      rw [(readEntries_entry hstyle hx (by omega) k before rest).1, hput]
      rfl
    | cons f fs =>
      have htext : Value.jsonEntries style ((k, x) :: f :: fs) =
          Text.jsonString k.toList ++ style.entry ++ x.jsonText style ++
            ',' :: (blanks ++ Value.jsonEntries style (f :: fs)) := by
        simp [Value.jsonEntries, hitem]
      rw [htext] at hfuel ⊢
      simp only [List.length_append, List.length_cons] at hfuel
      have hskip := skipSpace_starts hblanks
        ((starts_jsonEntries f fs).append ('\x7d' :: rest) : Starts (Value.jsonEntries style _ ++ _))
      have hdistinct : (Entries.keys (before ++ [(k, x.listed)]) ++ Entries.keys (f :: fs)).Nodup := by
        have hkeys : Entries.keys (before ++ [(k, x.listed)]) = before.keys ++ [k] := List.map_append
        rw [hkeys, List.append_assoc]
        exact distinct
      have hrest := @ih (fun e he => h e (List.mem_cons_of_mem _ he)) (List.cons_ne_nil _ _)
        _ hdistinct fuel (by omega)
      have hshape (cs ds : List Char) : cs ++ ',' :: (blanks ++ ds) ++ '\x7d' :: rest =
          cs ++ ',' :: (blanks ++ (ds ++ '\x7d' :: rest)) := by simp
      have hlength : 2 * (x.jsonText style).length ≤ fuel := by omega
      rw [hshape, (readEntries_entry hstyle hx hlength k before _).2, hskip, hput, hrest,
        List.append_assoc]
      rfl

/-! ### Documents -/

theorem readValue_minus {c : Char} (h : c.isDigit = true) (fuel depth : Nat) (cs : List Char) :
    readValue (fuel + 1) depth ('-' :: c :: cs) = readNumber true (c :: cs) := by
  rw [readValue.eq_7, readWord_minus h]

theorem readValue_digit {c : Char} (h : c.isDigit = true) (fuel depth : Nat) (cs : List Char) :
    readValue (fuel + 1) depth (c :: cs) = readNumber false (c :: cs) := by
  obtain ⟨hquote, hlist, hmap, hminus⟩ :=
    of_decimalDigits (p := fun d => d ≠ '"' ∧ d ≠ '[' ∧ d ≠ '\x7b' ∧ d ≠ '-') (by decide) h
  rw [readValue.eq_8 depth (c :: cs) fuel (fun _ h => hquote (List.cons.inj h).1)
    (fun _ h => hlist (List.cons.inj h).1) (fun _ h => hmap (List.cons.inj h).1)
    (fun _ h => hminus (List.cons.inj h).1), readWord_digits h]

theorem reads_int (style : Value.JsonStyle) (depth : Nat) {n : Int}
    (h : (Nat.toDigits 10 n.natAbs).length ≤ digitLimit) : Reads style depth (.int n) := by
  obtain ⟨d, ds, hds⟩ := List.exists_cons_of_ne_nil (Nat.toDigits_ne_nil (n := n.natAbs) (b := 10))
  have hd : d.isDigit = true := isDigit_of_mem_toDigits (n := n.natAbs) (by simp [hds])
  have hread (negative : Bool) {rest : List Char} (hrest : Ends rest) :
      readNumber negative (d :: ds ++ rest) =
        some (.int (if negative then -n.natAbs else n.natAbs), rest) :=
    hds ▸ readNumber_digits negative h hrest
  have htext : (Value.int n).jsonText style = if n < 0 then '-' :: d :: ds else d :: ds := by
    rw [Value.jsonText, wholeText, hds]
  by_cases hneg : n < 0
  · rw [if_pos hneg] at htext
    refine ⟨⟨'-', _, htext, by decide, by decide⟩, fun fuel rest hfuel hrest => ?_⟩
    rw [htext, List.length_cons] at hfuel
    obtain ⟨fuel, rfl⟩ : ∃ f, fuel = f + 1 := Nat.exists_eq_succ_of_ne_zero (by omega)
    rw [htext, List.cons_append, List.cons_append, readValue_minus hd, ← List.cons_append,
      hread true hrest, Value.listed, if_pos rfl, show -(n.natAbs : Int) = n by omega]
    all_goals simp
  · have hstart : isSpace d = false ∧ d ≠ ']' :=
      of_decimalDigits (p := fun d => isSpace d = false ∧ d ≠ ']') (by decide) hd
    rw [if_neg hneg] at htext
    refine ⟨⟨d, ds, htext, hstart⟩, fun fuel rest hfuel hrest => ?_⟩
    rw [htext, List.length_cons] at hfuel
    obtain ⟨fuel, rfl⟩ : ∃ f, fuel = f + 1 := Nat.exists_eq_succ_of_ne_zero (by omega)
    rw [htext, List.cons_append, readValue_digit hd, ← List.cons_append, hread false hrest,
      Value.listed, if_neg Bool.false_ne_true, show (n.natAbs : Int) = n by omega]
    all_goals simp

/-- A text is read as what its points are a text of. -/
theorem reads_points {style : Value.JsonStyle} {depth : Nat} {v : Value} {points : List Text.Point}
    (htext : v.jsonText style = '"' :: (points.flatMap Text.Point.json ++ ['"']))
    (apart : Text.Apart points) (hv : textOf points = v.listed) : Reads style depth v := by
  refine ⟨⟨'"', _, htext, by decide, by decide⟩, fun fuel rest hfuel _ => ?_⟩
  obtain ⟨fuel, rfl⟩ := Nat.exists_eq_succ_of_ne_zero (show fuel ≠ 0 by
    rintro rfl
    simp [htext] at hfuel)
  rw [htext, List.cons_append, readValue, List.append_assoc]
  show (readString (points.flatMap Text.Point.json ++ '"' :: rest)).map _ = _
  rw [readString_points apart, ← hv]
  rfl

theorem reads_text (style : Value.JsonStyle) (depth : Nat) (s : String) :
    Reads style depth (.text s) := by
  refine @reads_points style depth _ (s.toList.map .char) ?_ (Text.apart_chars _) ?_
  · rw [Value.jsonText, List.flatMap_map]
    rfl
  · rw [textOf_chars, String.ofList_toList]
    simp [Value.listed]

theorem reads_ragged (style : Value.JsonStyle) (depth : Nat) {t : Text.Ragged}
    (apart : Text.Apart t.points) : Reads style depth (.ragged t) := by
  refine @reads_points style depth _ t.points ?_ apart ?_
  · rw [Value.jsonText]
    rfl
  · rw [textOf_points]
    simp [Value.listed]

/-- A sequence is read item by item, whichever kind it is of. -/
theorem reads_sequence (hstyle : Separates style) {depth : Nat} {v : Value} {xs : List Value}
    (htext : v.jsonText style = '[' :: Value.jsonItems style xs ++ [']'])
    (hlisted : v.listed = .list (Value.listedItems xs)) (h : ∀ x ∈ xs, Reads style depth x) :
    Reads style (depth + 1) v := by
  refine ⟨⟨'[', _, htext, by decide, by decide⟩, fun fuel rest hfuel _ => ?_⟩
  rw [htext] at hfuel
  simp only [List.length_append, List.length_cons] at hfuel
  obtain ⟨fuel, rfl⟩ : ∃ f, fuel = f + 1 := Nat.exists_eq_succ_of_ne_zero (by omega)
  rw [htext, List.append_assoc, List.cons_append, readValue, hlisted]
  cases xs with
  | nil => rfl
  | cons x xs =>
    have hread := @readItems_jsonItems style hstyle depth (x :: xs) h (List.cons_ne_nil x xs) fuel
      (by omega) rest
    obtain ⟨c, cs, hcs, hspace, hc⟩ :=
      (starts_jsonItems (h x (by simp)) xs).append (']' :: rest)
    have hskip : skipSpace (Value.jsonItems style (x :: xs) ++ ']' :: rest) = c :: cs := by
      rw [hcs, skipSpace, List.dropWhile_cons_of_neg (by simp [hspace])]
    simp only [List.singleton_append, hskip]
    split
    next heq => exact absurd (List.cons.inj heq).1 hc
    next =>
      rw [← hcs, hread]
      rfl

theorem reads_map (hstyle : Separates style) {depth : Nat} {es : Entries} (distinct : es.keys.Nodup)
    (h : ∀ e ∈ es, Reads style depth e.2) : Reads style (depth + 1) (.map es) := by
  have htext : (Value.map es).jsonText style = '\x7b' :: Value.jsonEntries style es ++ ['\x7d'] := by
    rw [Value.jsonText]
  refine ⟨⟨'\x7b', _, htext, by decide, by decide⟩, fun fuel rest hfuel _ => ?_⟩
  rw [htext] at hfuel
  simp only [List.length_append, List.length_cons] at hfuel
  obtain ⟨fuel, rfl⟩ : ∃ f, fuel = f + 1 := Nat.exists_eq_succ_of_ne_zero (by omega)
  rw [htext, List.append_assoc, List.cons_append, readValue, Value.listed]
  cases es with
  | nil => rfl
  | cons e es =>
    have hread := @readEntries_jsonEntries style hstyle depth (e :: es) h (List.cons_ne_nil e es) []
      distinct fuel (by omega) rest
    obtain ⟨cs, hcs⟩ := jsonEntries_cons style e es
    rw [hcs] at hread ⊢
    show (readEntries fuel depth [] ('"' :: cs ++ '\x7d' :: rest)).map _ = _
    rw [hread]
    rfl

/-- A word that stands for a value. -/
theorem reads_word {style : Value.JsonStyle} {depth : Nat} {v : Value} {word : List Char}
    (htext : v.jsonText style = word) (hstarts : Starts word)
    (hread : ∀ fuel rest, readValue (fuel + 1) depth (word ++ rest) = some (v.listed, rest)) :
    Reads style depth v := by
  refine ⟨htext ▸ hstarts, fun fuel rest hfuel _ => ?_⟩
  obtain ⟨c, cs, hcs, -⟩ := hstarts
  obtain ⟨fuel, rfl⟩ : ∃ f, fuel = f + 1 := Nat.exists_eq_succ_of_ne_zero (by
    rintro rfl
    simp [htext, hcs] at hfuel)
  rw [htext, hread]

/-- The reader undoes the writing of a document, whatever follows it. -/
theorem readValue_jsonText (hstyle : Separates style) {depth : Nat} {v : Value} (h : Plain depth v) :
    Reads style depth v := by
  induction h with
  | null =>
    exact reads_word (by rw [Value.jsonText]; rfl) ⟨'n', ['u', 'l', 'l'], rfl, by decide, by decide⟩
      fun _ _ => rfl
  | bool b =>
    cases b
    · exact reads_word (by rw [Value.jsonText]; rfl)
        ⟨'f', ['a', 'l', 's', 'e'], rfl, by decide, by decide⟩ fun _ _ => rfl
    · exact reads_word (by rw [Value.jsonText]; rfl) ⟨'t', ['r', 'u', 'e'], rfl, by decide, by decide⟩
        fun _ _ => rfl
  | int hlength => exact reads_int _ _ hlength
  | text s => exact reads_text _ _ s
  | ragged apart => exact reads_ragged _ _ apart
  | list _ ih => exact reads_sequence hstyle (by rw [Value.jsonText]) (by rw [Value.listed]) ih
  | tuple _ ih => exact reads_sequence hstyle (by rw [Value.jsonText]) (by rw [Value.listed]) ih
  | map distinct _ ih => exact reads_map hstyle distinct ih

/-- A document that is written is read as itself, with its tuples as lists. -/
theorem readWithin_jsonText (hstyle : Separates style) {depth : Nat} {v : Value} (h : Plain depth v) :
    readWithin depth (String.ofList (v.jsonText style)) = some v.listed := by
  have hv := readValue_jsonText hstyle h
  have hskip : skipSpace (v.jsonText style) = v.jsonText style := by
    have hstart := @skipSpace_starts [] _ (by simp) hv.starts
    rwa [List.nil_append] at hstart
  have hread := hv.reads (2 * (v.jsonText style).length + 2) [] (by omega) (by rintro _ ⟨⟩)
  rw [List.append_nil] at hread
  rw [readWithin, String.toList_ofList, hskip, hread]
  rfl

/-! ### Documents of any depth -/

theorem Plain.mono {depth deeper : Nat} {v : Value} (h : Plain depth v) (hle : depth ≤ deeper) :
    Plain deeper v := by
  induction h generalizing deeper with
  | null => exact .null
  | bool b => exact .bool b
  | int hlength => exact .int hlength
  | text s => exact .text s
  | ragged apart => exact .ragged apart
  | list _ ih =>
    obtain ⟨deeper, rfl⟩ := Nat.exists_eq_succ_of_ne_zero (Nat.ne_zero_of_lt hle)
    exact .list fun x hx => ih x hx (Nat.le_of_succ_le_succ hle)
  | tuple _ ih =>
    obtain ⟨deeper, rfl⟩ := Nat.exists_eq_succ_of_ne_zero (Nat.ne_zero_of_lt hle)
    exact .tuple fun x hx => ih x hx (Nat.le_of_succ_le_succ hle)
  | map distinct _ ih =>
    obtain ⟨deeper, rfl⟩ := Nat.exists_eq_succ_of_ne_zero (Nat.ne_zero_of_lt hle)
    exact .map distinct fun e he => ih e he (Nat.le_of_succ_le_succ hle)

end Json

end TableAccess
