import Mathlib.Data.List.Infix
import Mathlib.Data.List.TakeWhile
import TableAccess.Operator.Suffix
import TableAccess.Proofs.Text.Trim

/-! The form of a key that ends in a suffix. The suffix is removed from the end of a key; here the key
is read from its start: what the lead of the suffix accepts, the words of the suffix in some case with
blanks between them, and one line feed at most (`Suffix.Ends`). A suffix gives a field exactly for the
keys of this form (`Suffix.field?_eq_some_iff`). -/

namespace TableAccess

namespace Text

/-- A run of blanks. -/
def Gap (cs : List Char) : Prop := cs ≠ [] ∧ ∀ c ∈ cs, isBlank c = true

instance (cs : List Char) : Decidable (Gap cs) :=
  haveI := List.decidableBAll (fun c => isBlank c = true) cs
  instDecidableAnd

theorem Gap.reverse {cs : List Char} (h : Gap cs) : Gap cs.reverse :=
  ⟨by simpa using h.1, fun c hc => h.2 c (List.mem_reverse.mp hc)⟩

theorem not_capital_of_isBlank {c : Char} (h : isBlank c = true) :
    ¬ ('A'.val ≤ c.val ∧ c.val ≤ 'Z'.val) := by
  rintro ⟨hlow, hhigh⟩
  have hlow : 65 ≤ c.toNat := UInt32.le_iff_toNat_le.mp hlow
  have hhigh : c.toNat ≤ 90 := UInt32.le_iff_toNat_le.mp hhigh
  simp only [isBlank, Bool.or_eq_true, Bool.and_eq_true, decide_eq_true_eq, beq_iff_eq] at h
  omega

/-- A blank stands for no letter. -/
theorem foldLetter_of_isBlank {c : Char} (h : isBlank c = true) : foldLetter c = c := by
  have hk : c ≠ '\u212a' := by rintro rfl; contradiction
  have hs : c ≠ '\u017f' := by rintro rfl; contradiction
  have hi : ¬ (c = '\u0131' ∨ c = '\u0130') := by rintro (rfl | rfl) <;> contradiction
  rw [foldLetter, if_neg hk, if_neg hs, if_neg hi]
  exact dif_neg (not_capital_of_isBlank h)

end Text

namespace Suffix

open Text

/-- A word, each letter in some case. -/
def SameWord (word spelled : List Char) : Prop := word.map foldLetter = spelled.map foldLetter

instance (word spelled : List Char) : Decidable (SameWord word spelled) :=
  inferInstanceAs (Decidable (_ = _))

/-- Words, each in some case, with blanks between neighbours. -/
inductive Spelled : List (List Char) → List Char → Prop
  | nil : Spelled [] []
  | word {w cs : List Char} : SameWord w cs → Spelled [w] cs
  | words {w next cs gap rest : List Char} {ws : List (List Char)} :
      SameWord w cs → Gap gap → Spelled (next :: ws) rest →
        Spelled (w :: next :: ws) (cs ++ gap ++ rest)

/-- A word that can be told apart from the blanks around it. -/
def Solid (word : List Char) : Prop := word ≠ [] ∧ ∀ c ∈ word, isBlank (foldLetter c) = false

instance (word : List Char) : Decidable (Solid word) :=
  haveI := List.decidableBAll (fun c => isBlank (foldLetter c) = false) word
  instDecidableAnd

theorem SameWord.reverse {word spelled : List Char} (h : SameWord word spelled) :
    SameWord word.reverse spelled.reverse := by
  unfold SameWord at h ⊢
  rw [List.map_reverse, List.map_reverse, h]

theorem SameWord.solid {word spelled : List Char} (h : SameWord word spelled) (solid : Solid word) :
    spelled ≠ [] ∧ ∀ c ∈ spelled, isBlank c = false := by
  refine ⟨?_, fun c hc => ?_⟩
  · rintro rfl
    exact solid.1 (List.map_eq_nil_iff.mp h)
  · obtain ⟨w, hw, hwc⟩ := List.mem_map.mp (h ▸ List.mem_map_of_mem (f := foldLetter) hc)
    have hfold := hwc ▸ solid.2 w hw
    by_contra hblank
    rw [Bool.not_eq_false] at hblank
    rw [foldLetter_of_isBlank hblank, hblank] at hfold
    contradiction

theorem dropWord_append {word spelled : List Char} (h : SameWord word spelled) (rest : List Char) :
    dropWord word (spelled ++ rest) = some rest := by
  induction word generalizing spelled with
  | nil =>
    obtain rfl := List.map_eq_nil_iff.mp h.symm
    rfl
  | cons w word ih =>
    cases spelled with
    | nil => contradiction
    | cons c spelled =>
      obtain ⟨hc, hrest⟩ := List.cons.inj h
      have hsame : sameLetter w c = true := beq_iff_eq.mpr hc
      rw [List.cons_append, dropWord, if_pos hsame]
      exact ih hrest

theorem sameWord_of_dropWord {word cs rest : List Char} (h : dropWord word cs = some rest) :
    ∃ spelled, cs = spelled ++ rest ∧ SameWord word spelled := by
  induction word generalizing cs with
  | nil =>
    obtain rfl := Option.some.inj h
    exact ⟨[], rfl, rfl⟩
  | cons w word ih =>
    cases cs with
    | nil => contradiction
    | cons c cs =>
      rw [dropWord] at h
      split at h
      next hw =>
        obtain ⟨spelled, rfl, hs⟩ := ih h
        exact ⟨c :: spelled, rfl, congrArg₂ List.cons (beq_iff_eq.mp hw) hs⟩
      next => contradiction

theorem Spelled.head {word spelled : List Char} {words : List (List Char)}
    (h : Spelled (word :: words) spelled) (solid : Solid word) :
    ∃ c cs, spelled = c :: cs ∧ isBlank c = false := by
  have hfirst : ∃ first rest, spelled = first ++ rest ∧ SameWord word first := by
    cases h with
    | word hw => exact ⟨spelled, [], (List.append_nil _).symm, hw⟩
    | words hw _ _ => exact ⟨_, _, List.append_assoc _ _ _, hw⟩
  obtain ⟨first, rest, rfl, hw⟩ := hfirst
  obtain ⟨hne, hfirst⟩ := hw.solid solid
  obtain ⟨c, cs, rfl⟩ := List.exists_cons_of_ne_nil hne
  exact ⟨c, cs ++ rest, rfl, hfirst c List.mem_cons_self⟩

theorem dropWords_append {words : List (List Char)} {spelled : List Char} (h : Spelled words spelled)
    (solid : ∀ w ∈ words, Solid w) (rest : List Char) :
    dropWords words (spelled ++ rest) = some rest := by
  induction h with
  | nil => rfl
  | word hw => exact dropWord_append hw rest
  | @words w next cs gap later ws hw hgap hlater ih =>
    obtain ⟨blank, blanks, rfl⟩ := List.exists_cons_of_ne_nil hgap.1
    obtain ⟨hblank, hblanks⟩ := List.forall_mem_cons.mp hgap.2
    obtain ⟨-, hsolid⟩ := List.forall_mem_cons.mp solid
    -- the next word begins with no blank, so exactly the gap is passed over
    have hpassed : (blanks ++ (later ++ rest)).dropWhile isBlank = later ++ rest := by
      obtain ⟨c, cs, rfl, hc⟩ := hlater.head (hsolid next List.mem_cons_self)
      rw [List.dropWhile_append_of_pos hblanks]
      exact List.dropWhile_cons_of_neg (by simp [hc])
    rw [List.append_assoc, List.append_assoc, List.cons_append, dropWords, dropWord_append hw]
    · simpa [hblank, hpassed] using ih hsolid
    · simp

theorem spelled_of_dropWords {words : List (List Char)} {cs rest : List Char}
    (h : dropWords words cs = some rest) : ∃ spelled, cs = spelled ++ rest ∧ Spelled words spelled := by
  fun_induction dropWords words cs with
  | case1 cs =>
    obtain rfl := Option.some.inj h
    exact ⟨[], rfl, .nil⟩
  | case2 cs word =>
    obtain ⟨spelled, rfl, hs⟩ := sameWord_of_dropWord h
    exact ⟨spelled, rfl, .word hs⟩
  | case3 cs word words hne c after hd hc ih =>
    obtain ⟨spelled, rfl, hs⟩ := sameWord_of_dropWord hd
    obtain ⟨later, hlater, hl⟩ := ih h
    obtain ⟨next, words, rfl⟩ := List.exists_cons_of_ne_nil hne
    have hgap : Gap (c :: after.takeWhile isBlank) :=
      ⟨List.cons_ne_nil _ _, List.forall_mem_cons.mpr ⟨hc, fun d hd => List.mem_takeWhile_imp hd⟩⟩
    refine ⟨spelled ++ (c :: after.takeWhile isBlank) ++ later, ?_, .words hs hgap hl⟩
    rw [List.append_assoc, List.append_assoc, ← hlater, List.cons_append,
      List.takeWhile_append_dropWhile]
  | case4 => contradiction
  | case5 => contradiction

/-- One more word behind others. -/
theorem Spelled.concat {words : List (List Char)} {spelled w cs gap : List Char}
    (h : Spelled words spelled) (hne : words ≠ []) (hgap : Gap gap) (hw : SameWord w cs) :
    Spelled (words ++ [w]) (spelled ++ gap ++ cs) := by
  induction h with
  | nil => contradiction
  | word hv => exact .words hv hgap (.word hw)
  | words hv hgap' _ ih =>
    have hrest := ih (List.cons_ne_nil _ _)
    have hall := Spelled.words hv hgap' hrest
    simpa [List.append_assoc] using hall

theorem Spelled.reverse {words : List (List Char)} {spelled : List Char} (h : Spelled words spelled) :
    Spelled (words.reverse.map List.reverse) spelled.reverse := by
  induction h with
  | nil => exact .nil
  | word hw => exact .word hw.reverse
  | words hw hgap _ ih =>
    have hall := ih.concat (by simp) hgap.reverse hw.reverse
    simpa [List.append_assoc] using hall

theorem isWord_iff {cs : List Char} : isWord cs = true ↔ cs ≠ [] ∧ ∀ c ∈ cs, isBlank c = false := by
  simp [isWord]

theorem isWord_reverse (cs : List Char) : isWord cs.reverse = isWord cs := by
  rw [Bool.eq_iff_iff, isWord_iff, isWord_iff]
  simp

/-- What a suffix accepts before its words, and the field that is found there. -/
def Lead.Reads : Lead → List Char → List Char → Prop
  | .text, front, field => (∃ c ∈ front.getLast?, isBlank c = true) ∧ field = trim front
  | .wordSpace, front, field => front = field ++ [' '] ∧ isWord field = true
  | .wordBlanks, front, field => ∃ gap, front = field ++ gap ∧ Gap gap ∧ isWord field = true

theorem Lead.field?_text_iff {cs field : List Char} {c : Char} :
    Lead.field? .text (c :: cs.reverse) = some field ↔ Lead.Reads .text (cs ++ [c]) field := by
  have htrim : isBlank c = true → trim (cs ++ [c]) = trim cs := fun hc =>
    trimBy_append (List.forall_mem_singleton.mpr hc) cs
  simp only [Lead.field?, Lead.Reads, List.reverse_reverse, List.getLast?_concat, Option.mem_some_iff,
    exists_eq_left', Option.ite_none_right_eq_some, Option.some.injEq]
  refine and_congr_right fun hc => ?_
  rw [htrim hc, eq_comm]

theorem Lead.field?_wordSpace_iff {cs field : List Char} {c : Char} :
    Lead.field? .wordSpace (c :: cs.reverse) = some field ↔
      Lead.Reads .wordSpace (cs ++ [c]) field := by
  simp only [Lead.field?, Lead.Reads, List.reverse_reverse, isWord_reverse,
    Option.ite_none_right_eq_some, Option.some.injEq]
  constructor
  · rintro ⟨⟨rfl, hw⟩, rfl⟩
    exact ⟨rfl, hw⟩
  · rintro ⟨h, hw⟩
    obtain ⟨rfl, hc⟩ := List.append_inj' h rfl
    exact ⟨⟨List.singleton_inj.mp hc, hw⟩, rfl⟩

theorem Lead.field?_wordBlanks_iff {cs field : List Char} {c : Char} :
    Lead.field? .wordBlanks (c :: cs.reverse) = some field ↔
      Lead.Reads .wordBlanks (cs ++ [c]) field := by
  simp only [Lead.field?, Lead.Reads, Option.ite_none_right_eq_some, Option.some.injEq]
  constructor
  · rintro ⟨⟨hc, hw⟩, rfl⟩
    have hblanks : ∀ d ∈ cs.reverse.takeWhile isBlank, isBlank d = true :=
      fun d hd => List.mem_takeWhile_imp hd
    refine ⟨(c :: cs.reverse.takeWhile isBlank).reverse, ?_,
      Gap.reverse ⟨List.cons_ne_nil _ _, List.forall_mem_cons.mpr ⟨hc, hblanks⟩⟩,
      by rwa [isWord_reverse]⟩
    rw [← List.reverse_append, List.cons_append, List.takeWhile_append_dropWhile, List.reverse_cons,
      List.reverse_reverse]
  · rintro ⟨gap, h, hgap, hw⟩
    obtain ⟨blanks, blank, rfl⟩ := (List.eq_nil_or_concat' gap).resolve_left hgap.1
    rw [← List.append_assoc] at h
    obtain ⟨rfl, hlast⟩ := List.append_inj' h rfl
    obtain rfl := List.singleton_inj.mp hlast
    obtain ⟨hblanks, hblank⟩ := List.forall_mem_append.mp hgap.2
    have hword : (blanks.reverse ++ field.reverse).dropWhile isBlank = field.reverse := by
      obtain ⟨hne, hfield⟩ := isWord_iff.mp ((isWord_reverse field).trans hw)
      obtain ⟨d, ds, hds⟩ := List.exists_cons_of_ne_nil hne
      rw [List.dropWhile_append_of_pos fun d hd => hblanks d (List.mem_reverse.mp hd), hds]
      exact List.dropWhile_cons_of_neg (by simp [hfield d (by simp [hds])])
    rw [List.reverse_append, hword, isWord_reverse]
    exact ⟨⟨hblank c (List.mem_singleton_self c), hw⟩, List.reverse_reverse field⟩

theorem Lead.field?_iff {lead : Lead} {front field : List Char} :
    Lead.field? lead front.reverse = some field ↔ Lead.Reads lead front field := by
  rcases List.eq_nil_or_concat' front with rfl | ⟨cs, c, rfl⟩
  · cases lead with
    | text => simp [Lead.field?, Lead.Reads]
    | wordSpace => simp [Lead.field?, Lead.Reads]
    | wordBlanks => simp [Lead.field?, Lead.Reads, Gap]
  · rw [List.reverse_concat]
    cases lead with
    | text => exact Lead.field?_text_iff
    | wordSpace => exact Lead.field?_wordSpace_iff
    | wordBlanks => exact Lead.field?_wordBlanks_iff

/-- The suffix has words, and none of them has a blank. -/
structure WellSpelled (s : Suffix) : Prop where
  some : s.words ≠ []
  solid : ∀ w ∈ s.words, Solid w.toList

instance (s : Suffix) : Decidable s.WellSpelled :=
  decidable_of_iff (s.words ≠ [] ∧ ∀ w ∈ s.words, Solid w.toList)
    ⟨fun h => ⟨h.1, h.2⟩, fun h => ⟨h.some, h.solid⟩⟩

/-- The key ends in the suffix, behind the field: what the lead accepts, the words of the suffix in
some case, and perhaps a line feed. -/
inductive Ends (s : Suffix) : List Char → List Char → Prop
  | intro {front field spelled newline : List Char} : Lead.Reads s.lead front field →
      Spelled (s.words.map String.toList) spelled → newline = [] ∨ newline = ['\n'] →
        Ends s (front ++ spelled ++ newline) field

theorem backward_eq (s : Suffix) :
    s.backward = (s.words.map String.toList).reverse.map List.reverse := by
  simp [backward, List.map_reverse, Function.comp_def]

theorem spelled_backward_iff {s : Suffix} {spelled : List Char} :
    Spelled s.backward spelled.reverse ↔ Spelled (s.words.map String.toList) spelled := by
  rw [backward_eq]
  constructor
  · intro h
    simpa [List.map_reverse, Function.comp_def] using h.reverse
  · exact Spelled.reverse

theorem WellSpelled.backward {s : Suffix} (h : s.WellSpelled) :
    s.backward ≠ [] ∧ ∀ w ∈ s.backward, Solid w := by
  refine ⟨by simpa [Suffix.backward] using h.some, ?_⟩
  rw [Suffix.backward, List.forall_mem_map]
  intro w hw
  obtain ⟨hne, hletters⟩ := h.solid w (List.mem_reverse.mp hw)
  exact ⟨by simpa using hne, fun c hc => hletters c (List.mem_reverse.mp hc)⟩

theorem dropFinalNewline_cases (cs : List Char) :
    cs = dropFinalNewline cs ∨ cs = '\n' :: dropFinalNewline cs := by
  unfold dropFinalNewline
  split
  · exact .inr rfl
  · exact .inl rfl

theorem dropFinalNewline_append {newline cs : List Char} (h : newline = [] ∨ newline = ['\n'])
    (hcs : ∃ c rest, cs = c :: rest ∧ isBlank c = false) : dropFinalNewline (newline ++ cs) = cs := by
  obtain ⟨c, rest, rfl, hc⟩ := hcs
  obtain rfl | rfl := h
  · unfold dropFinalNewline
    split
    next heq =>
      obtain ⟨rfl, -⟩ := List.cons.inj heq
      contradiction
    next => rfl
  · rfl

theorem ends_of_field? {s : Suffix} {key field : List Char} (h : s.field? key = some field) :
    s.Ends key field := by
  obtain ⟨rest, hrest, hlead⟩ := Option.bind_eq_some_iff.mp h
  obtain ⟨spelled, hkey, hspelled⟩ := spelled_of_dropWords hrest
  rw [← List.reverse_reverse rest] at hlead hkey
  rw [← List.reverse_reverse spelled] at hspelled hkey
  have hends : ∀ newline, newline = [] ∨ newline = ['\n'] →
      s.Ends (rest.reverse ++ spelled.reverse ++ newline) field := fun _ =>
    .intro (Lead.field?_iff.mp hlead) (spelled_backward_iff.mp hspelled)
  rcases dropFinalNewline_cases key.reverse with hlast | hlast
  · rw [hkey, ← List.reverse_append, List.reverse_inj] at hlast
    rw [hlast]
    simpa using hends [] (.inl rfl)
  · rw [hkey, ← List.reverse_append, ← List.reverse_concat, List.reverse_inj] at hlast
    rw [hlast]
    exact hends _ (.inr rfl)

/-- A key is read up to the words that end it. -/
theorem dropWords_backward {s : Suffix} (wellSpelled : s.WellSpelled) {front spelled newline : List Char}
    (hspelled : Spelled (s.words.map String.toList) spelled)
    (hnewline : newline = [] ∨ newline = ['\n']) :
    dropWords s.backward (dropFinalNewline (front ++ spelled ++ newline).reverse) =
      some front.reverse := by
  obtain ⟨hne, hsolid⟩ := wellSpelled.backward
  have hback := spelled_backward_iff.mpr hspelled
  obtain ⟨word, words, hb⟩ := List.exists_cons_of_ne_nil hne
  obtain ⟨c, cs, hcs, hc⟩ : ∃ c cs, spelled.reverse = c :: cs ∧ isBlank c = false := by
    rw [hb] at hback hsolid
    exact hback.head (hsolid word List.mem_cons_self)
  have hline : dropFinalNewline (front ++ spelled ++ newline).reverse =
      spelled.reverse ++ front.reverse := by
    rw [List.reverse_append, List.reverse_append]
    refine dropFinalNewline_append ?_ ⟨c, cs ++ front.reverse, by rw [hcs, List.cons_append], hc⟩
    rcases hnewline with rfl | rfl
    · exact .inl rfl
    · exact .inr rfl
  rw [hline, dropWords_append hback hsolid]

/-- A suffix gives a field exactly for the keys that end in it behind this field. -/
theorem field?_eq_some_iff {s : Suffix} (wellSpelled : s.WellSpelled) {key field : List Char} :
    s.field? key = some field ↔ s.Ends key field := by
  refine ⟨ends_of_field?, ?_⟩
  rintro @⟨front, _, spelled, newline, hfront, hspelled, hnewline⟩
  rw [field?, dropWords_backward wellSpelled hspelled hnewline]
  exact Lead.field?_iff.mpr hfront

end Suffix

end TableAccess
