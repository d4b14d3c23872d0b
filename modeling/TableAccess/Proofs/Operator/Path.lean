import TableAccess.Proofs.Operator.Field
import TableAccess.Proofs.Operator.Grammar

/-! Keys of documents as fields. A document column with a key in it, `column->>'key'`, ends in a quote,
which no word of an operator can take for its own. So of the operators that a suffix behind it could
mean, only the one it was written for is left; and that one is read unless it wants a single word before
it and the key in the document has blanks (`path_operator_kept_iff`). Then the key of the condition is taken
for a field as a whole, although the negation of the same words would have been read
(`blank_path_lost`). -/

namespace TableAccess

open Text

namespace Suffix

/-- Read from its end, no line of words begins with a character that is none of their letters. -/
theorem dropWords_cons_eq_none {words : List (List Char)} {c : Char} {cs : List Char}
    (hne : words ≠ []) (solid : ∀ w ∈ words, Solid w)
    (h : ∀ w ∈ words, ∀ letter ∈ w, sameLetter letter c = false) : dropWords words (c :: cs) = none := by
  obtain ⟨w, ws, rfl⟩ := List.exists_cons_of_ne_nil hne
  obtain ⟨letter, letters, rfl⟩ := List.exists_cons_of_ne_nil (solid w List.mem_cons_self).1
  have hletter : sameLetter letter c = false := h _ List.mem_cons_self letter List.mem_cons_self
  have hword : dropWord (letter :: letters) (c :: cs) = none := by simp [dropWord, hletter]
  cases ws with
  | nil => exact hword
  | cons next ws => rw [dropWords, hword]; simp

/-- Behind any text, a suffix gives the field that its lead finds there. -/
theorem field?_behind {s : Suffix} (wellSpelled : s.WellSpelled) {front spelled : List Char}
    (hspelled : Spelled (s.words.map String.toList) spelled) :
    s.field? (front ++ spelled) = Lead.field? s.lead front.reverse := by
  have hwords : dropWords s.backward (dropFinalNewline (front ++ spelled ++ []).reverse) =
      some front.reverse := dropWords_backward wellSpelled hspelled (.inl rfl)
  rw [List.append_nil] at hwords
  rw [field?, hwords]
  rfl

/-- A field that is told apart from a suffix behind it by its last character: this is no blank, and no
letter of any suffix. -/
structure Closed (field : List Char) (last : Char) : Prop where
  begins : ∀ c ∈ field.head?, isBlank c = false
  ends : field.getLast? = some last
  unblank : isBlank last = false
  foreign : ∀ p ∈ Operator.patterns, ∀ w ∈ p.2.backward, ∀ letter ∈ w, sameLetter letter last = false

variable {field : List Char} {last : Char}

theorem Closed.reverse (h : Closed field last) : ∃ cs, field.reverse = last :: cs := by
  obtain ⟨cs, rfl⟩ := List.getLast?_eq_some_iff.mp h.ends
  exact ⟨cs.reverse, List.reverse_concat ..⟩

/-- Behind any lead it may be written, if it is one word or the lead takes more than one. -/
theorem Closed.writes (h : Closed field last) {lead : Lead} (hlead : lead = .text ∨ isWord field = true) :
    Lead.Writes lead field [' '] := by
  have hgap : Gap [' '] := by decide
  cases lead with
  | text =>
    refine ⟨?_, h.begins, fun c hc => ?_, hgap⟩
    · rintro rfl
      exact nomatch h.ends
    · rw [h.ends] at hc
      exact Option.some.inj hc ▸ h.unblank
  | wordSpace => exact ⟨hlead.resolve_left nofun, rfl⟩
  | wordBlanks => exact ⟨hlead.resolve_left nofun, hgap⟩

/-- A lead that wants a single word finds one before a blank only if the whole field is one. -/
theorem Closed.isWord (h : Closed field last) {lead : Lead} (hlead : lead ≠ .text) {other : List Char}
    (hf : Lead.field? lead (' ' :: field.reverse) = some other) : isWord field = true := by
  obtain ⟨cs, hcs⟩ := h.reverse
  rw [← isWord_reverse]
  cases lead with
  | text => contradiction
  | wordSpace => exact (Option.ite_none_right_eq_some.mp hf).1.2
  | wordBlanks =>
    have hword := (Option.ite_none_right_eq_some.mp hf).1.2
    have hdrop : field.reverse.dropWhile isBlank = field.reverse := by
      rw [hcs]
      exact List.dropWhile_cons_of_neg (by simp [h.unblank])
    rwa [hdrop] at hword

end Suffix

namespace Operator

open Suffix

variable {field spelled : List Char} {last : Char} {p q : Operator × Suffix}

/-- Behind such a field, only the suffix that was written can end the key. -/
theorem pattern_of_closed (closed : Closed field last) (hp : p ∈ patterns) (hq : q ∈ patterns)
    (hspelled : Spelled (p.2.words.map String.toList) spelled) {other : List Char}
    (h : q.2.field? (field ++ [' '] ++ spelled) = some other) : q = p := by
  by_contra hne
  obtain ⟨cs, hcs⟩ := closed.reverse
  have ht := patterns_wellSpelled q hq
  -- whatever it wants before it, the suffix has words by which the others are apart from it
  let bare : Suffix := ⟨.text, p.2.words⟩
  have hs : bare.WellSpelled := ⟨(patterns_wellSpelled p hp).some, (patterns_wellSpelled p hp).solid⟩
  have apart : q.2.Apart bare := patterns_apart q hq p hp hne
  rcases Nat.le_total q.2.backward.length bare.backward.length with hle | hle
  · have hbare : bare.field? (field ++ [' '] ++ spelled) = some (trim field.reverse.reverse) := by
      rw [field?_behind hs hspelled, List.reverse_concat]
      rfl
    exact apart.not_both ht hs hle h hbare
  · obtain ⟨rest, hrest, hlead⟩ := Option.bind_eq_some_iff.mp h
    obtain ⟨b, later, rfl, hb⟩ := Lead.blank_of_field? hlead
    have hwords : dropWords bare.backward (dropFinalNewline (field ++ [' '] ++ spelled ++ []).reverse) =
        some (field ++ [' ']).reverse := dropWords_backward hs hspelled (.inl rfl)
    rw [List.append_nil, List.reverse_concat, hcs] at hwords
    obtain ⟨same, more, hsplit, hfold, hmore⟩ :=
      words_extend hs.backward.2 ht.backward.2 hs.backward.1 hle hwords rfl hrest hb
    by_cases hnil : more = []
    · have hsame : fold q.2.backward = fold bare.backward := by
        rw [hsplit, hnil, List.append_nil, hfold]
      exact (apart (hsame ▸ List.prefix_rfl)).1 hsame
    · have hall : ∀ w ∈ more, w ∈ q.2.backward := fun w hw => hsplit ▸ List.mem_append_right _ hw
      have hnone : dropWords more ((last :: cs).dropWhile isBlank) = none := by
        rw [List.dropWhile_cons_of_neg (by simp [closed.unblank])]
        exact dropWords_cons_eq_none hnil (fun w hw => ht.backward.2 w (hall w hw))
          fun w hw => closed.foreign q hq w (hall w hw)
      have hfound := hmore.resolve_left hnil
      rw [hnone] at hfound
      contradiction

section

variable {op : Operator} {s : Suffix}

theorem resolve_closed (closed : Closed field last) (hop : op ∈ table) (hs : s ∈ op.suffixes)
    (hspelled : Spelled (s.words.map String.toList) spelled) (hlead : s.lead = .text ∨ isWord field = true)
    (value : Value) :
    resolve (String.ofList (field ++ [' '] ++ spelled)) value = (op, String.ofList field) := by
  have hends : s.Ends (field ++ [' '] ++ spelled) field := by
    simpa using Suffix.Ends.intro (closed.writes hlead).reads hspelled (.inl rfl)
  refine resolve_of_ends hop ⟨s, hs, ?_⟩ value
  rw [String.toList_ofList, String.toList_ofList]
  exact hends

/-- Where the suffix that was written wants a single word and the field is none, no suffix ends the
key. -/
theorem resolve_closed_of_not_isWord (closed : Closed field last) (hop : op ∈ table)
    (hs : s ∈ op.suffixes) (hspelled : Spelled (s.words.map String.toList) spelled)
    (hlead : s.lead ≠ .text) (hword : isWord field = false) (value : Value) :
    resolve (String.ofList (field ++ [' '] ++ spelled)) value =
      (if value.isSequence then .isIn else .eq, String.ofList (field ++ [' '] ++ spelled)) := by
  have hp : (op, s) ∈ patterns := mem_patterns_iff.mpr ⟨hop, hs⟩
  refine resolve_of_not_hasSuffix ?_ value
  by_contra hsuffix
  obtain ⟨other, hother, f, t, ht, hends⟩ := hasSuffix_iff.mp (Bool.not_eq_false _ ▸ hsuffix)
  have hq : (other, t) ∈ patterns := mem_patterns_iff.mpr ⟨hother, ht⟩
  have hfound := (Suffix.field?_eq_some_iff (patterns_wellSpelled _ hq)).mpr hends
  rw [String.toList_ofList] at hfound
  obtain ⟨rfl, rfl⟩ := Prod.mk.inj (pattern_of_closed closed hp hq hspelled hfound)
  rw [field?_behind (patterns_wellSpelled _ hp) hspelled, List.reverse_concat] at hfound
  rw [closed.isWord hlead hfound] at hword
  contradiction

end

/-- A document column with a key in it, as text. -/
def path (column key : List Char) : List Char := column ++ "->>'".toList ++ key ++ ['\'']

variable {column key : List Char}

theorem path_closed (hcolumn : ∀ c ∈ column, isBlank c = false) : Closed (path column key) '\'' where
  begins := by
    cases column with
    | nil => exact fun d hd => Option.some.inj hd ▸ rfl
    | cons c column => exact fun d hd => Option.some.inj hd ▸ hcolumn c List.mem_cons_self
  ends := List.getLast?_concat ..
  unblank := by decide
  foreign := by
    have hall : (patterns.all fun p => p.2.backward.all fun w =>
      w.all fun letter => !sameLetter letter '\'') = true := by decide +kernel
    simpa only [List.all_eq_true, Bool.not_eq_eq_eq_not, Bool.not_true] using hall

theorem isWord_path_iff (hcolumn : ∀ c ∈ column, isBlank c = false) :
    isWord (path column key) = true ↔ ∀ c ∈ key, isBlank c = false := by
  have harrow : ∀ c ∈ "->>'".toList, isBlank c = false := (isWord_iff.mp rfl).2
  have hquote : ∀ c ∈ ['\''], isBlank c = false := (isWord_iff.mp rfl).2
  simp only [isWord_iff, path, List.forall_mem_append]
  exact ⟨fun h => h.2.1.2, fun h => ⟨by simp, ⟨⟨hcolumn, harrow⟩, h⟩, hquote⟩⟩

/-- The words that want a single word before them: the keywords that no other word negates. -/
def keywords : List (List String) := [["IN"], ["LIKE"], ["ILIKE"], ["SIMILAR", "TO"]]

theorem lead_text_iff : ∀ p ∈ patterns, p.2.lead = .text ↔ p.2.words ∉ keywords := by decide

/-- A key in a document, one space and a suffix, in any spelling. The operator and the field that were
written are read if the suffix is no bare keyword, so a sign or a negation, or the key in the document
has no blanks. Only then: a bare keyword behind a key with blanks is overlooked, and what was written is
the field as a whole. -/
theorem path_operator_kept_iff {op : Operator} (hop : op ∈ table) {s : Suffix} (hs : s ∈ op.suffixes)
    (hcolumn : ∀ c ∈ column, isBlank c = false) (hspelled : Spelled (s.words.map String.toList) spelled)
    (value : Value) :
    let written := String.ofList (path column key ++ [' '] ++ spelled)
    (resolve written value = (op, String.ofList (path column key)) ↔
      s.words ∉ keywords ∨ ∀ c ∈ key, isBlank c = false) ∧
    (¬ (s.words ∉ keywords ∨ ∀ c ∈ key, isBlank c = false) →
      resolve written value = (if value.isSequence then .isIn else .eq, written)) := by
  intro written
  have closed : Closed (path column key) '\'' := path_closed hcolumn
  have hreads : s.words ∉ keywords ∨ (∀ c ∈ key, isBlank c = false) ↔
      s.lead = .text ∨ isWord (path column key) = true := by
    rw [isWord_path_iff hcolumn, lead_text_iff (op, s) (mem_patterns_iff.mpr ⟨hop, hs⟩)]
  rw [hreads]
  have hlost : ¬ (s.lead = .text ∨ isWord (path column key) = true) →
      resolve written value = (if value.isSequence then .isIn else .eq, written) := by
    intro h
    obtain ⟨hlead, hword⟩ := not_or.mp h
    exact resolve_closed_of_not_isWord closed hop hs hspelled hlead (Bool.not_eq_true _ ▸ hword) value
  refine ⟨⟨fun h => ?_, fun h => resolve_closed closed hop hs hspelled h value⟩, hlost⟩
  by_contra hnot
  have hfield : written = String.ofList (path column key) :=
    (Prod.mk.inj ((hlost hnot).symm.trans h)).2
  have hlength := congrArg List.length (String.ofList_inj.mp hfield)
  simp at hlength

/-- A keyword and its negation behind a key with a space, and the keyword in small letters behind a key
without. -/
theorem path_operator_kept_iff_like :
    let positive : Suffix := ⟨.wordSpace, ["LIKE"]⟩
    let negated : Suffix := ⟨.text, ["NOT", "LIKE"]⟩
    (positive ∈ Operator.like.suffixes ∧ negated ∈ Operator.notLike.suffixes) ∧
    (∀ value, resolve "data->>'first name' NOT  LIKE" value = (.notLike, "data->>'first name'")) ∧
    (∀ value, resolve "data->>'name' like" value = (.like, "data->>'name'")) ∧
    resolve "data->>'first name' LIKE" (.text "J%") = (.eq, "data->>'first name' LIKE") ∧
    resolve "data->>'first name' LIKE" (.list [.text "J%"]) = (.isIn, "data->>'first name' LIKE") := by
  intro positive negated
  have hpositive : positive ∈ Operator.like.suffixes := by decide
  have hnegated : negated ∈ Operator.notLike.suffixes := by decide
  have hcolumn : ∀ c ∈ "data".toList, isBlank c = false := (isWord_iff.mp rfl).2
  have hnot : Spelled ["NOT".toList, "LIKE".toList] "NOT  LIKE".toList :=
    @Spelled.words _ _ _ [' ', ' '] _ [] rfl (by decide) (.word rfl)
  have hsmall : Spelled ["LIKE".toList] "like".toList := .word (by decide)
  have hname : ∀ c ∈ "name".toList, isBlank c = false := (isWord_iff.mp rfl).2
  have hblank : ¬ (positive.words ∉ keywords ∨ ∀ c ∈ "first name".toList, isBlank c = false) :=
    not_or.mpr ⟨by decide, fun h => nomatch h ' ' (by decide)⟩
  have hblankLost := fun value => (@path_operator_kept_iff _ "data".toList "first name".toList .like
    (by decide) positive hpositive hcolumn (.word rfl) value).2 hblank
  have hblankNegated := fun value => (@path_operator_kept_iff _ "data".toList "first name".toList
    .notLike (by decide) negated hnegated hcolumn hnot value).1.mpr (.inl (by decide))
  have hsmallRead := fun value => (@path_operator_kept_iff _ "data".toList "name".toList .like
    (by decide) positive hpositive hcolumn hsmall value).1.mpr (.inr hname)
  exact ⟨⟨hpositive, hnegated⟩, hblankNegated, hsmallRead, hblankLost (.text "J%"),
    hblankLost (.list [.text "J%"])⟩

/-- A key with a space in it: the negation is read, and the keyword is taken for a part of the field. -/
theorem blank_path_lost :
    resolve "data->>'first name' NOT LIKE" (.text "J%") = (.notLike, "data->>'first name'") ∧
    resolve "data->>'first name' LIKE" (.text "J%") = (.eq, "data->>'first name' LIKE") ∧
    resolve "data->>'first name' LIKE" (.text "J%") ≠ (.like, "data->>'first name'") := by
  decide +kernel

end Operator

end TableAccess
