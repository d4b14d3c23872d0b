import TableAccess.Operator
import TableAccess.Proofs.Operator.Pattern

/-! The grammar of condition keys. Two suffixes that end one key have the same words from its end on, up
to the first word of the shorter one. In the table no suffix is the end of another but those that want a
single word before them, and behind more words there is none (`Suffix.Apart`). So at most one suffix
ends a key: what a key means depends neither on the order in which the operators are tried nor, with a
suffix, on the value (`one_reading`); and a key that is written for an operator and a field is read as
these (`written_key_resolved`). -/

namespace TableAccess

namespace Suffix

open Text

/-- A text that is read up to a blank. -/
theorem span_word {spelled rest : List Char} {blank : Char} (h : ∀ c ∈ spelled, isBlank c = false)
    (hblank : isBlank blank = true) :
    (spelled ++ blank :: rest).span (fun c => !isBlank c) = (spelled, blank :: rest) := by
  have hspelled : ∀ c ∈ spelled, (!isBlank c) = true := fun c hc => by simp [h c hc]
  rw [List.span_eq_takeWhile_dropWhile, List.takeWhile_append_of_pos hspelled,
    List.dropWhile_append_of_pos hspelled]
  simp [hblank]

/-- Two words before a blank are one word. -/
theorem word_unique {word other cs rest later : List Char} {b b' : Char} (solid : Solid word)
    (solid' : Solid other) (h : dropWord word cs = some (b :: rest)) (hb : isBlank b = true)
    (h' : dropWord other cs = some (b' :: later)) (hb' : isBlank b' = true) :
    SameWord word other ∧ b :: rest = b' :: later := by
  obtain ⟨spelled, rfl, hs⟩ := sameWord_of_dropWord h
  obtain ⟨spelled', heq, hs'⟩ := sameWord_of_dropWord h'
  have hspan : (spelled ++ b :: rest).span (fun c => !isBlank c) = (spelled, b :: rest) :=
    span_word (hs.solid solid).2 hb
  rw [heq, span_word (hs'.solid solid').2 hb'] at hspan
  obtain ⟨rfl, hrest⟩ := Prod.mk.inj hspan
  exact ⟨hs.trans hs'.symm, hrest.symm⟩

theorem dropWords_cons_eq_some {w next cs rest : List Char} {ws : List (List Char)}
    (h : dropWords (w :: next :: ws) cs = some rest) :
    ∃ b after, dropWord w cs = some (b :: after) ∧ isBlank b = true ∧
      dropWords (next :: ws) (after.dropWhile isBlank) = some rest := by
  rw [dropWords] at h
  · split at h
    next b after hw =>
      split at h
      next hb => exact ⟨b, after, hw, hb, h⟩
      next => contradiction
    next => contradiction
  · simp

/-- Words without case. -/
def fold (words : List (List Char)) : List (List Char) := words.map fun w => w.map foldLetter

/-- Two lines of words before a blank, the shorter one first: it is the beginning of the other, and what
the other has more is found behind the blanks. -/
theorem words_extend {words others : List (List Char)} {cs rest later : List Char} {b b' : Char}
    (solid : ∀ w ∈ words, Solid w) (solid' : ∀ w ∈ others, Solid w) (hne : words ≠ [])
    (hle : words.length ≤ others.length)
    (h : dropWords words cs = some (b :: rest)) (hb : isBlank b = true)
    (h' : dropWords others cs = some (b' :: later)) (hb' : isBlank b' = true) :
    ∃ same more, others = same ++ more ∧ fold same = fold words ∧
      (more = [] ∨ dropWords more (rest.dropWhile isBlank) = some (b' :: later)) := by
  induction words generalizing others cs with
  | nil => contradiction
  | cons w words ih =>
    cases others with
    | nil => contradiction
    | cons v others =>
      obtain ⟨hw, hwords⟩ := List.forall_mem_cons.mp solid
      obtain ⟨hv, hothers⟩ := List.forall_mem_cons.mp solid'
      rcases words with _ | ⟨next, words⟩
      · rcases others with _ | ⟨next', others⟩
        · obtain ⟨hsame, -⟩ := word_unique hw hv h hb h' hb'
          exact ⟨[v], [], rfl, congrArg (· :: []) hsame.symm, .inl rfl⟩
        · obtain ⟨c, after, hv', hc, hmore⟩ := dropWords_cons_eq_some h'
          obtain ⟨hsame, heq⟩ := word_unique hw hv h hb hv' hc
          obtain ⟨-, rfl⟩ := List.cons.inj heq
          exact ⟨[v], next' :: others, rfl, congrArg (· :: []) hsame.symm, .inr hmore⟩
      · rcases others with _ | ⟨next', others⟩
        · simp at hle
        · obtain ⟨c, after, hw', hc, hmore⟩ := dropWords_cons_eq_some h
          obtain ⟨c', after', hv', hc', hmore'⟩ := dropWords_cons_eq_some h'
          obtain ⟨hsame, heq⟩ := word_unique hw hv hw' hc hv' hc'
          obtain ⟨-, rfl⟩ := List.cons.inj heq
          obtain ⟨same, more, hsplit, hfold, hrest⟩ := ih hwords hothers (List.cons_ne_nil _ _)
            (Nat.le_of_succ_le_succ hle) hmore hmore'
          exact ⟨v :: same, more, congrArg (v :: ·) hsplit, congrArg₂ List.cons hsame.symm hfold,
            hrest⟩

theorem Lead.blank_of_field? {lead : Lead} {reversed field : List Char}
    (h : Lead.field? lead reversed = some field) :
    ∃ c cs, reversed = c :: cs ∧ isBlank c = true := by
  cases reversed with
  | nil => cases lead <;> contradiction
  | cons c cs =>
    refine ⟨c, cs, rfl, ?_⟩
    cases lead with
    | text => exact (Option.ite_none_right_eq_some.mp h).1
    | wordSpace =>
      obtain ⟨rfl, -⟩ := (Option.ite_none_right_eq_some.mp h).1
      rfl
    | wordBlanks => exact (Option.ite_none_right_eq_some.mp h).1.1

/-- Behind the blank of a lead that wants a single word there is no other blank than those next to it. -/
theorem Lead.word_of_field? {lead : Lead} {cs field : List Char} {c : Char} (hlead : lead ≠ .text)
    (h : Lead.field? lead (c :: cs) = some field) :
    ∀ d ∈ cs.dropWhile isBlank, isBlank d = false := by
  cases lead with
  | text => contradiction
  | wordSpace =>
    obtain ⟨-, hword⟩ := (Option.ite_none_right_eq_some.mp h).1
    exact fun d hd => (isWord_iff.mp hword).2 d ((List.dropWhile_suffix _).subset hd)
  | wordBlanks =>
    obtain ⟨-, hword⟩ := (Option.ite_none_right_eq_some.mp h).1
    exact (isWord_iff.mp hword).2

/-- A field and the blanks behind it, as a suffix takes them. -/
def Lead.Writes : Lead → List Char → List Char → Prop
  | .text, field, gap => field ≠ [] ∧ (∀ c ∈ field.head?, isBlank c = false) ∧
      (∀ c ∈ field.getLast?, isBlank c = false) ∧ Gap gap
  | .wordSpace, field, gap => isWord field = true ∧ gap = [' ']
  | .wordBlanks, field, gap => isWord field = true ∧ Gap gap

theorem Lead.Writes.reads {lead : Lead} {field gap : List Char} (h : Lead.Writes lead field gap) :
    Lead.Reads lead (field ++ gap) field := by
  cases lead with
  | text =>
    obtain ⟨-, hhead, hlast, hne, hblanks⟩ := h
    refine ⟨?_, ?_⟩
    · rw [List.getLast?_append_of_ne_nil _ hne]
      exact ⟨gap.getLast hne, List.getLast?_eq_some_getLast hne, hblanks _ (List.getLast_mem hne)⟩
    · exact ((trimBy_append hblanks field).trans (trimBy_eq_self hhead hlast)).symm
  | wordSpace =>
    obtain ⟨hword, rfl⟩ := h
    exact ⟨rfl, hword⟩
  | wordBlanks =>
    obtain ⟨hword, hgap⟩ := h
    exact ⟨gap, rfl, hgap, hword⟩

/-- Where the words of `s` begin those of `t`, counted from the end of a key, these are more and `s` has
a single word before it. -/
def Apart (s t : Suffix) : Prop :=
  fold s.backward <+: fold t.backward → fold s.backward ≠ fold t.backward ∧ s.lead ≠ .text

instance (s t : Suffix) : Decidable (s.Apart t) := inferInstanceAs (Decidable (_ → _))

theorem Apart.not_both {s t : Suffix} (hs : s.WellSpelled) (ht : t.WellSpelled) (apart : s.Apart t)
    (hle : s.backward.length ≤ t.backward.length) {key field other : List Char}
    (h : s.field? key = some field) : t.field? key ≠ some other := by
  intro h'
  obtain ⟨reversed, hwords, hlead⟩ := Option.bind_eq_some_iff.mp h
  obtain ⟨reversed', hwords', hlead'⟩ := Option.bind_eq_some_iff.mp h'
  obtain ⟨b, rest, rfl, hb⟩ := Lead.blank_of_field? hlead
  obtain ⟨b', later, rfl, hb'⟩ := Lead.blank_of_field? hlead'
  obtain ⟨hne, hsolid⟩ := hs.backward
  obtain ⟨same, more, hsplit, hfold, hmore⟩ :=
    words_extend hsolid ht.backward.2 hne hle hwords hb hwords' hb'
  have hsame : fold t.backward = fold s.backward ++ fold more := by
    rw [hsplit, ← hfold]
    exact List.map_append
  obtain ⟨hdiffer, hword⟩ := apart (hsame ▸ List.prefix_append _ _)
  rcases hmore with rfl | hmore
  · exact hdiffer (by simpa [fold] using hsame.symm)
  · obtain ⟨spelled, hrest, -⟩ := spelled_of_dropWords hmore
    have hfree := Lead.word_of_field? hword hlead b' (by simp [hrest])
    rw [hb'] at hfree
    contradiction

end Suffix

namespace Operator

open Text Suffix

/-- Every suffix, with its operator. -/
def patterns : List (Operator × Suffix) := table.flatMap fun op => op.suffixes.map (op, ·)

theorem mem_patterns_iff {op : Operator} {s : Suffix} :
    (op, s) ∈ patterns ↔ op ∈ table ∧ s ∈ op.suffixes := by
  simp [patterns]

theorem patterns_wellSpelled : ∀ p ∈ patterns, p.2.WellSpelled := by decide +kernel

theorem patterns_apart : ∀ p ∈ patterns, ∀ q ∈ patterns, p ≠ q → p.2.Apart q.2 := by decide +kernel

theorem pattern_unique {p q : Operator × Suffix} (hp : p ∈ patterns) (hq : q ∈ patterns)
    {key field other : List Char} (h : p.2.field? key = some field)
    (h' : q.2.field? key = some other) : p = q := by
  by_contra hne
  have hs := patterns_wellSpelled p hp
  have ht := patterns_wellSpelled q hq
  rcases Nat.le_total p.2.backward.length q.2.backward.length with hle | hle
  · exact (patterns_apart p hp q hq hne).not_both hs ht hle h h'
  · exact (patterns_apart q hq p hp (Ne.symm hne)).not_both ht hs hle h' h

/-- The key ends in a suffix of the operator, behind the field. -/
def Ends (op : Operator) (key : String) (field : String) : Prop :=
  ∃ s ∈ op.suffixes, s.Ends key.toList field.toList

theorem field?_eq_some_iff {op : Operator} (hop : op ∈ table) {key field : String} :
    op.field? key.toList = some field.toList ↔ op.Ends key field := by
  have hends : ∀ s ∈ op.suffixes, ∀ f, s.field? key.toList = some f ↔ s.Ends key.toList f :=
    fun s hs f => Suffix.field?_eq_some_iff (patterns_wellSpelled (op, s) (mem_patterns_iff.mpr ⟨hop, hs⟩))
  constructor
  · intro h
    obtain ⟨s, hs, hf⟩ := List.exists_of_findSome?_eq_some h
    exact ⟨s, hs, (hends s hs _).mp hf⟩
  · rintro ⟨s, hs, hf⟩
    have hfound := (hends s hs _).mpr hf
    cases h : op.field? key.toList with
    | none =>
      rw [List.findSome?_eq_none_iff.mp h s hs] at hfound
      contradiction
    | some other =>
      obtain ⟨t, ht, hother⟩ := List.exists_of_findSome?_eq_some h
      have hsame := pattern_unique (mem_patterns_iff.mpr ⟨hop, hs⟩) (mem_patterns_iff.mpr ⟨hop, ht⟩)
        hfound hother
      obtain ⟨-, rfl⟩ := Prod.mk.inj hsame
      exact hother.symm.trans hfound

theorem ends_unique {op other : Operator} (hop : op ∈ table) (hother : other ∈ table)
    {key field field' : String} (h : op.Ends key field) (h' : other.Ends key field') :
    op = other ∧ field = field' := by
  have hfield := (field?_eq_some_iff hop).mpr h
  have hfield' := (field?_eq_some_iff hother).mpr h'
  obtain ⟨s, hs, hf⟩ := List.exists_of_findSome?_eq_some hfield
  obtain ⟨t, ht, hf'⟩ := List.exists_of_findSome?_eq_some hfield'
  have hsame := pattern_unique (mem_patterns_iff.mpr ⟨hop, hs⟩) (mem_patterns_iff.mpr ⟨hother, ht⟩)
    hf hf'
  obtain ⟨rfl, -⟩ := Prod.mk.inj hsame
  exact ⟨rfl, String.toList_inj.mp (Option.some.inj (hfield.symm.trans hfield'))⟩

theorem field?_eq_none_iff {op : Operator} (hop : op ∈ table) {key : String} :
    op.field? key.toList = none ↔ ∀ field, ¬ op.Ends key field := by
  rw [Option.eq_none_iff_forall_ne_some]
  refine ⟨fun h field hends => h _ ((field?_eq_some_iff hop).mpr hends), fun h f hf => ?_⟩
  exact h (String.ofList f) ((field?_eq_some_iff hop).mp (by rw [hf, String.toList_ofList]))

/-- The operator and the field of a key when the operators are tried in a given order. Where the order
comes to membership, a list or tuple is compared by it if no suffix at all ends the key. -/
def resolveIn (operators : List Operator) (key : String) (value : Value) : Operator × String :=
  walk operators
where
  walk : List Operator → Operator × String
    | [] => (.eq, key)
    | op :: rest =>
      match op.field? key.toList with
      | some field => (op, String.ofList field)
      | none =>
        if op = .isIn ∧ value.isSequence ∧ operators.all fun o => (o.field? key.toList).isNone then
          (op, key)
        else walk rest

section

variable {operators : List Operator} {key : String}

theorem resolveIn_of_ends (hp : operators.Perm table) {op : Operator} (hop : op ∈ table)
    {field : String} (h : op.Ends key field) (value : Value) :
    resolveIn operators key value = (op, field) := by
  have hfield := (field?_eq_some_iff hop).mpr h
  have hsuffix : ¬ (operators.all fun o => (o.field? key.toList).isNone) = true := by
    intro hall
    have hnone := List.all_eq_true.mp hall op (hp.mem_iff.mpr hop)
    rw [hfield] at hnone
    contradiction
  -- what is tried before the operator finds no field and does not end the walk
  have hwalk : ∀ rest, rest ⊆ table → op ∈ rest →
      resolveIn.walk operators key value rest = (op, field) := by
    intro rest hrest hmem
    induction rest with
    | nil => contradiction
    | cons other rest ih =>
      obtain ⟨hother, hrest⟩ := List.cons_subset.mp hrest
      rw [resolveIn.walk]
      split
      next f hf =>
        have hends : other.Ends key (String.ofList f) :=
          (field?_eq_some_iff hother).mp (by rw [hf, String.toList_ofList])
        obtain ⟨rfl, rfl⟩ := ends_unique hop hother h hends
        rfl
      next hnone =>
        have hne : op ≠ other := by
          rintro rfl
          rw [hfield] at hnone
          contradiction
        rw [if_neg fun hc => hsuffix hc.2.2]
        exact ih hrest ((List.mem_cons.mp hmem).resolve_left hne)
  exact hwalk operators hp.subset (hp.mem_iff.mpr hop)

theorem resolveIn_of_not_ends (hp : operators.Perm table)
    (h : ∀ op ∈ table, ∀ field, ¬ op.Ends key field) (value : Value) :
    resolveIn operators key value = (if value.isSequence then .isIn else .eq, key) := by
  have hnone : ∀ op ∈ table, op.field? key.toList = none :=
    fun op hop => (field?_eq_none_iff hop).mpr (h op hop)
  have hall : (operators.all fun o => (o.field? key.toList).isNone) = true :=
    List.all_eq_true.mpr fun op hop => by rw [hnone op (hp.subset hop)]; rfl
  have hwalk : ∀ rest, rest ⊆ table → resolveIn.walk operators key value rest =
      (if .isIn ∈ rest ∧ value.isSequence then .isIn else .eq, key) := by
    intro rest hrest
    induction rest with
    | nil => rfl
    | cons op rest ih =>
      obtain ⟨hop, hrest⟩ := List.cons_subset.mp hrest
      rw [resolveIn.walk, hnone op hop, hall, ih hrest]
      by_cases hin : op = .isIn
      · subst hin
        cases value.isSequence <;> simp
      · simp [hin, Ne.symm hin]
  have hin : Operator.isIn ∈ operators := hp.mem_iff.mpr (by decide)
  rw [resolveIn, hwalk operators hp.subset]
  simp [hin]

theorem ofSuffix?_eq_some_iff {found : Operator × String} :
    ofSuffix? key = some found ↔ found.1 ∈ table ∧ found.1.Ends key found.2 := by
  have hsome : ∀ found, ofSuffix? key = some found → found.1 ∈ table ∧ found.1.Ends key found.2 := by
    intro found h
    obtain ⟨op, hop, hf⟩ := List.exists_of_findSome?_eq_some h
    obtain ⟨field, hfield, rfl⟩ := Option.map_eq_some_iff.mp hf
    exact ⟨hop, (field?_eq_some_iff hop).mp (by rw [hfield, String.toList_ofList])⟩
  refine ⟨hsome found, fun ⟨hop, hends⟩ => ?_⟩
  cases h : ofSuffix? key with
  | none =>
    have hnone := Option.map_eq_none_iff.mp (List.findSome?_eq_none_iff.mp h found.1 hop)
    exact absurd hends ((field?_eq_none_iff hop).mp hnone found.2)
  | some other =>
    obtain ⟨hother, hends'⟩ := hsome other h
    obtain ⟨hop', hfield⟩ := ends_unique hop hother hends hends'
    rw [Prod.ext hop' hfield]

theorem hasSuffix_iff : hasSuffix key = true ↔ ∃ op ∈ table, ∃ field, op.Ends key field := by
  rw [hasSuffix, Option.isSome_iff_exists]
  constructor
  · rintro ⟨found, h⟩
    obtain ⟨hop, hends⟩ := ofSuffix?_eq_some_iff.mp h
    exact ⟨found.1, hop, found.2, hends⟩
  · rintro ⟨op, hop, field, hends⟩
    exact ⟨(op, field), ofSuffix?_eq_some_iff.mpr ⟨hop, hends⟩⟩

theorem resolve_of_ends {op : Operator} (hop : op ∈ table) {field : String} (h : op.Ends key field)
    (value : Value) : resolve key value = (op, field) := by
  have hfound : ofSuffix? key = some (op, field) := ofSuffix?_eq_some_iff.mpr ⟨hop, h⟩
  rw [resolve, hfound]

theorem resolve_of_not_hasSuffix (h : hasSuffix key = false) (value : Value) :
    resolve key value = (if value.isSequence then .isIn else .eq, key) := by
  have hnone : ofSuffix? key = none := by simpa [hasSuffix] using h
  rw [resolve, hnone]
  dsimp only
  split <;> rfl

end

/-- Every key has one reading. One suffix of one operator ends it at most, and fixes the field. If one
does, the key means this operator and this field, with every value and in every order in which the
operators are tried; if none does, the key is the field, compared by membership with a list or tuple and
by equality with any other value. -/
theorem one_reading (key : String) :
    (hasSuffix key = true ↔ ∃ op ∈ table, ∃ field, op.Ends key field) ∧
    (∀ op ∈ table, ∀ other ∈ table, ∀ field field', op.Ends key field → other.Ends key field' →
      op = other ∧ field = field') ∧
    (∀ op ∈ table, ∀ field, op.Ends key field → ∀ value, resolve key value = (op, field) ∧
      ∀ operators : List Operator, operators.Perm table →
        resolveIn operators key value = (op, field)) ∧
    (hasSuffix key = false → ∀ value,
      resolve key value = (if value.isSequence then .isIn else .eq, key) ∧
        ∀ operators : List Operator, operators.Perm table →
          resolveIn operators key value = (if value.isSequence then .isIn else .eq, key)) := by
  refine ⟨hasSuffix_iff, fun op hop other hother _ _ => ends_unique hop hother, ?_, ?_⟩
  · intro op hop field h value
    exact ⟨resolve_of_ends hop h value, fun _ hp => resolveIn_of_ends hp hop h value⟩
  · intro h value
    have hnot : ∀ op ∈ table, ∀ field, ¬ op.Ends key field := by
      intro op hop field hends
      rw [hasSuffix_iff.mpr ⟨op, hop, field, hends⟩] at h
      contradiction
    exact ⟨resolve_of_not_hasSuffix h value, fun _ hp => resolveIn_of_not_ends hp hnot value⟩

/-- A key with the words of an operator in letters of other scripts, an em space between them, and a
line feed at its end; and a key in which only the beginning of a suffix is left. -/
theorem one_reading_folded :
    let key := "tags  nOt\u2003\u0131N\n"
    Operator.notIn.Ends key "tags" ∧
      (∀ value, resolve key value = (.notIn, "tags") ∧ ∀ operators : List Operator,
        operators.Perm table → resolveIn operators key value = (.notIn, "tags")) ∧
      hasSuffix "tags NOT" = false ∧
        ∀ operators : List Operator, operators.Perm table →
          resolveIn operators "tags NOT" (.tuple []) = (.isIn, "tags NOT") := by
  intro key
  have hends : Operator.notIn.Ends key "tags" :=
    (field?_eq_some_iff (by decide)).mp (by decide +kernel)
  have hplain : hasSuffix "tags NOT" = false := by decide +kernel
  exact ⟨hends, (one_reading key).2.2.1 .notIn (by decide) "tags" hends, hplain,
    ((one_reading "tags NOT").2.2.2 hplain (.tuple [])).2⟩

/-- A key that is written for an operator, in any spelling of one of its suffixes, and a field that the
suffix takes is read as this operator and this field, whatever the value. -/
theorem written_key_resolved {op : Operator} (hop : op ∈ table) {s : Suffix} (hs : s ∈ op.suffixes)
    {field gap spelled : List Char} (hfield : Lead.Writes s.lead field gap)
    (hspelled : Spelled (s.words.map String.toList) spelled) (value : Value) :
    resolve (String.ofList (field ++ gap ++ spelled)) value = (op, String.ofList field) := by
  have hends : s.Ends (field ++ gap ++ spelled) field := by
    simpa using Suffix.Ends.intro hfield.reads hspelled (.inl rfl)
  refine resolve_of_ends hop ⟨s, hs, ?_⟩ value
  rw [String.toList_ofList, String.toList_ofList]
  exact hends

/-- A field that ends like an operator, before a suffix of signs; and two words in mixed case, with
letters of other scripts and a line feed between them, behind a path and a hard space. -/
theorem written_key_resolved_mixed :
    let field := "late is NOT".toList
    let path := "doc->>'in'".toList
    let words := ['\u017f', '\u0130'] ++ "milar".toList ++ ['\n'] ++ "tO".toList
    (Lead.Writes .text field ['\t'] ∧ Spelled ["!~~".toList] "!~~".toList ∧
      ∀ value, resolve "late is NOT\t!~~" value = (.notLike, "late is NOT")) ∧
    Lead.Writes .wordBlanks path ['\u00a0'] ∧ Spelled ["SIMILAR".toList, "TO".toList] words ∧
      ∀ value, resolve (String.ofList (path ++ ['\u00a0'] ++ words)) value = (.similarTo, "doc->>'in'") := by
  intro field path words
  have hfield : Lead.Writes .text field ['\t'] := by
    refine ⟨by decide, fun c hc => ?_, fun c hc => ?_, by decide⟩
    · obtain rfl : 'l' = c := Option.some.inj hc
      decide
    · obtain rfl : 'T' = c := Option.some.inj hc
      decide
  have hpath : Lead.Writes .wordBlanks path ['\u00a0'] := ⟨by decide, by decide⟩
  have hspelled : Spelled ["!~~".toList] "!~~".toList := .word rfl
  have hwords : Spelled ["SIMILAR".toList, "TO".toList] words :=
    .words (by decide) (by decide) (.word (by decide))
  have hsigns : ⟨.text, ["!~~"]⟩ ∈ Operator.notLike.suffixes := by decide
  have hsimilar : ⟨.wordBlanks, ["SIMILAR", "TO"]⟩ ∈ Operator.similarTo.suffixes := by decide
  exact ⟨⟨hfield, hspelled, written_key_resolved (by decide) hsigns hfield hspelled⟩, hpath, hwords,
    written_key_resolved (by decide) hsimilar hpath hwords⟩

end Operator

end TableAccess
