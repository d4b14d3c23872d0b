import TableAccess.Operator
import TableAccess.Proofs.Operator.Pattern
import TableAccess.Proofs.Text.Trim

/-! The field of a key. A key with a suffix is its field between blanks, and then the words of the
suffix, letter by letter in some case, with blanks between them (`Suffix.field?_eq_some`). So a word
without blanks that begins with no letter of a suffix occurs in a key exactly if it occurs in the
field (`isInfix_field_iff`): a suffix neither hides such a word nor makes one. -/

namespace TableAccess

namespace Text

/-- A word on the two sides of a character that it does not have. -/
theorem isInfix_append_cons {word before after : List Char} {c : Char} (h : c ∉ word) :
    word <:+: before ++ c :: after ↔ word <:+: before ∨ word <:+: after := by
  have hstart : ∀ part : List Char, part ⊆ word → part <+: c :: after → part = [] := by
    intro part hpart hp
    cases part with
    | nil => rfl
    | cons d part =>
      obtain ⟨rfl, -⟩ := List.cons_prefix_cons.mp hp
      exact absurd (hpart List.mem_cons_self) h
  constructor
  · intro hw
    rcases List.infix_append_iff.mp hw with hb | ha | ⟨first, second, rfl, hf, hs⟩
    · exact .inl hb
    · rcases List.infix_cons_iff.mp ha with hp | ha
      · exact .inr (hstart word (List.Subset.refl _) hp ▸ List.nil_infix)
      · exact .inr ha
    · obtain rfl := hstart second (List.subset_append_right _ _) hs
      exact .inl ((List.append_nil first).symm ▸ hf.isInfix)
  · rintro (hb | ha)
    · exact hb.trans (List.prefix_append _ _).isInfix
    · exact ha.trans ((List.suffix_cons _ _).trans (List.suffix_append _ _)).isInfix

theorem isInfix_of_blank_append {word blanks cs : List Char} (hword : ∀ c ∈ word, isBlank c = false)
    (hblanks : ∀ c ∈ blanks, isBlank c = true) : word <:+: blanks ++ cs ↔ word <:+: cs := by
  induction blanks with
  | nil => rfl
  | cons b blanks ih =>
    have hb : b ∉ word := fun hm => by simpa [hword b hm] using hblanks b (by simp)
    have hnil : word <:+: [] ∨ word <:+: blanks ++ cs ↔ word <:+: blanks ++ cs :=
      or_iff_right_of_imp fun h => List.infix_nil.mp h ▸ List.nil_infix
    rw [← ih fun c hc => hblanks c (List.mem_cons_of_mem _ hc), ← hnil]
    exact @isInfix_append_cons word [] (blanks ++ cs) b hb

end Text

namespace Suffix

open Text

/-- The letters of a suffix. -/
def letters (s : Suffix) : List Char := s.words.flatMap String.toList

/-- A character of a key that may belong to a suffix: a blank, or one of its letters in some case. -/
def Spells (letters : List Char) (c : Char) : Prop :=
  isBlank c = true ∨ ∃ letter ∈ letters, sameLetter letter c = true

theorem Spells.mono {letters others : List Char} (h : letters ⊆ others) {c : Char}
    (hc : Spells letters c) : Spells others c :=
  hc.imp_right fun ⟨letter, hl, hs⟩ => ⟨letter, h hl, hs⟩

theorem SameWord.spells {word spelled : List Char} (h : SameWord word spelled) :
    ∀ c ∈ spelled, Spells word c := by
  intro c hc
  obtain ⟨letter, hl, hsame⟩ := List.mem_map.mp (h ▸ List.mem_map_of_mem (f := foldLetter) hc)
  exact .inr ⟨letter, hl, beq_iff_eq.mpr hsame⟩

theorem Spelled.spells {words : List (List Char)} {spelled : List Char} (h : Spelled words spelled) :
    ∀ c ∈ spelled, Spells words.flatten c := by
  induction h with
  | nil => simp
  | word hw => simpa using hw.spells
  | @words w next cs gap rest ws hw hgap _ ih =>
    rw [List.forall_mem_append, List.forall_mem_append]
    refine ⟨⟨fun c hc => ?_, fun c hc => .inl (hgap.2 c hc)⟩, fun c hc => ?_⟩
    · exact (hw.spells c hc).mono (List.subset_append_left _ _)
    · exact (ih c hc).mono (List.subset_append_right _ _)

/-- What stands before a suffix is the field between blanks, with a blank behind it at least. -/
theorem Lead.Reads.blanks {lead : Lead} {front field : List Char} (h : Lead.Reads lead front field) :
    ∃ before after, front = before ++ field ++ after ∧ after ≠ [] ∧
      (∀ c ∈ before, isBlank c = true) ∧ ∀ c ∈ after, isBlank c = true := by
  cases lead with
  | text =>
    obtain ⟨⟨c, hlast, hc⟩, rfl⟩ := h
    obtain ⟨cs, rfl⟩ := List.getLast?_eq_some_iff.mp hlast
    obtain ⟨before, after, hcs, hb, ha⟩ := eq_append_trimBy isBlank cs
    refine ⟨before, after ++ [c], ?_, by simp, hb, by simpa [or_imp, forall_and] using ⟨ha, hc⟩⟩
    rw [trim, trimBy_append (List.forall_mem_singleton.mpr hc), ← List.append_assoc, ← hcs]
  | wordSpace =>
    obtain ⟨rfl, -⟩ := h
    exact ⟨[], [' '], rfl, by simp, by simp, by simp [isBlank]⟩
  | wordBlanks =>
    obtain ⟨gap, rfl, hgap, -⟩ := h
    exact ⟨[], gap, rfl, hgap.1, by simp, hgap.2⟩

/-- A key that ends in a suffix: blanks, the field, a blank at least, and what spells the suffix. -/
theorem field?_eq_some {s : Suffix} {key field : List Char} (h : s.field? key = some field) :
    ∃ before after spelled, key = before ++ field ++ after ++ spelled ∧ after ≠ [] ∧
      (∀ c ∈ before, isBlank c = true) ∧ (∀ c ∈ after, isBlank c = true) ∧
      ∀ c ∈ spelled, Spells s.letters c := by
  obtain @⟨front, _, spelled, newline, hfront, hspelled, hnewline⟩ := ends_of_field? h
  obtain ⟨before, after, rfl, hne, hbefore, hafter⟩ := hfront.blanks
  refine ⟨before, after, spelled ++ newline, by rw [List.append_assoc], hne, hbefore, hafter, ?_⟩
  rw [List.forall_mem_append, letters, List.flatMap_def]
  refine ⟨hspelled.spells, fun c hc => .inl ?_⟩
  rcases hnewline with rfl | rfl
  · contradiction
  · rw [List.mem_singleton.mp hc]
    rfl

/-- A word without blanks, the first letter of which spells nothing of a suffix, is in the key exactly
if it is in the field. -/
theorem isInfix_field_iff {s : Suffix} {key field word : List Char} {first : Char}
    (h : s.field? key = some field) (hword : ∀ c ∈ first :: word, isBlank c = false)
    (hfirst : ∀ letter ∈ s.letters, sameLetter letter first = false) :
    first :: word <:+: key ↔ first :: word <:+: field := by
  obtain ⟨before, after, spelled, rfl, hne, hbefore, hafter, hspelled⟩ := field?_eq_some h
  obtain ⟨blank, blanks, rfl⟩ := List.exists_cons_of_ne_nil hne
  obtain ⟨hblank, hblanks⟩ := List.forall_mem_cons.mp hafter
  have hapart : blank ∉ first :: word := fun hm => by simp [hword blank hm] at hblank
  -- behind the field there are blanks and letters of the suffix only, and it can begin with neither
  have hbehind : ¬ first :: word <:+: blanks ++ spelled := by
    rw [isInfix_of_blank_append hword hblanks]
    intro hin
    rcases hspelled first (hin.subset List.mem_cons_self) with hb | ⟨letter, hl, hs⟩
    · simp [hword first List.mem_cons_self] at hb
    · simp [hfirst letter hl] at hs
  rw [List.append_assoc, List.append_assoc, isInfix_of_blank_append hword hbefore, List.cons_append,
    isInfix_append_cons hapart, or_iff_left hbehind]

end Suffix

namespace Operator

/-- The field that a key and a value are resolved to is the key, or the key without a suffix. -/
theorem resolve_field (key : String) (value : Value) :
    (resolve key value).2 = key ∨ ∃ op ∈ table, ∃ s ∈ op.suffixes,
      s.field? key.toList = some (resolve key value).2.toList := by
  unfold resolve
  cases h : ofSuffix? key with
  | none =>
    dsimp only
    split <;> exact .inl rfl
  | some found =>
    obtain ⟨op, hop, hf⟩ := List.exists_of_findSome?_eq_some h
    obtain ⟨field, hfield, rfl⟩ := Option.map_eq_some_iff.mp hf
    obtain ⟨s, hs, hsf⟩ := List.exists_of_findSome?_eq_some hfield
    exact .inr ⟨op, hop, s, hs, by simpa using hsf⟩

end Operator

end TableAccess
