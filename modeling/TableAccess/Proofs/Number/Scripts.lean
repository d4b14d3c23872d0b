import Mathlib.Data.List.Induction
import Mathlib.Data.Nat.Digits.Defs
import TableAccess.Proofs.Number.Digits

/-! Numbers in the digits of any script. Figures are decimal digits and others that have a value but build
no number, such as superscripts. The reader of whole numbers takes figures exactly if all of them are
decimal digits, up to `digitLimit` of them, and then gives the number that they write
(`readWhole_figures`). -/

namespace TableAccess

namespace Text

/-! ### Figures -/

/-- The figures as spans of code points, both ends included. -/
def figureSpans : List (Nat × Nat) := decimalZeros.map (fun z => (z, z + 9)) ++ figureRanges

/-- The blanks as spans of code points. -/
def blankSpans : List (Nat × Nat) :=
  [(9, 13), (28, 32), (0x85, 0x85), (0xA0, 0xA0), (0x1680, 0x1680), (0x2000, 0x200A), (0x2028, 0x2029),
    (0x202F, 0x202F), (0x205F, 0x205F), (0x3000, 0x3000)]

variable {c : Char} {d : Nat} {cs : List Char}

theorem decimalDigit?_eq_some (h : decimalDigit? c = some d) :
    ∃ z ∈ decimalZeros, z ≤ c.toNat ∧ c.toNat < z + 10 ∧ d = c.toNat - z := by
  unfold decimalDigit? at h
  split at h
  · split at h
    next hdigit =>
      have hbounds : 48 ≤ c.toNat ∧ c.toNat ≤ 57 := Char.isDigit_iff_toNat.mp hdigit
      exact ⟨48, by decide, hbounds.1, by omega, (Option.some.inj h).symm⟩
    next => contradiction
  · obtain ⟨z, hz, rfl⟩ := Option.map_eq_some_iff.mp h
    have hspan := List.find?_some hz
    simp only [Bool.and_eq_true, decide_eq_true_eq] at hspan
    exact ⟨z, List.mem_of_find?_eq_some hz, hspan.1, hspan.2, rfl⟩

theorem decimalDigit?_lt (h : decimalDigit? c = some d) : d < 10 := by
  obtain ⟨z, -, hle, hlt, rfl⟩ := decimalDigit?_eq_some h
  omega

theorem isDigit_of_decimalDigit?_none (h : decimalDigit? c = none) : c.isDigit = false := by
  by_contra hdigit
  rw [Bool.not_eq_false] at hdigit
  have hbounds : 48 ≤ c.toNat ∧ c.toNat ≤ 57 := Char.isDigit_iff_toNat.mp hdigit
  rw [decimalDigit?, if_pos (by omega), if_pos hdigit] at h
  contradiction

theorem isFigure_of_decimalDigit? (h : decimalDigit? c = some d) : isFigure c = true := by
  rw [isFigure, h]
  rfl

theorem mem_figureSpans (h : isFigure c = true) :
    ∃ s ∈ figureSpans, s.1 ≤ c.toNat ∧ c.toNat ≤ s.2 := by
  rw [isFigure, Bool.or_eq_true] at h
  obtain hdecimal | hother := h
  · obtain ⟨d, hd⟩ := Option.isSome_iff_exists.mp hdecimal
    obtain ⟨z, hz, hle, hlt, -⟩ := decimalDigit?_eq_some hd
    exact ⟨(z, z + 9), List.mem_append_left _ (List.mem_map_of_mem hz), hle, by simp; omega⟩
  · obtain ⟨s, hs, hspan⟩ := List.any_eq_true.mp hother
    simp only [Bool.and_eq_true, decide_eq_true_eq] at hspan
    exact ⟨s, List.mem_append_right _ hs, hspan⟩

theorem mem_blankSpans (h : isBlank c = true) :
    ∃ s ∈ blankSpans, s.1 ≤ c.toNat ∧ c.toNat ≤ s.2 := by
  simp only [isBlank, Bool.or_eq_true, Bool.and_eq_true, decide_eq_true_eq, beq_iff_eq] at h
  simp only [blankSpans, List.mem_cons, List.not_mem_nil, or_false, exists_eq_or_imp, exists_eq_left]
  omega

/-- No figure lies in a span that is apart from those of the figures. -/
theorem not_mem_span {t : Nat × Nat} (h : isFigure c = true)
    (apart : figureSpans.all (fun s => s.2 < t.1 || t.2 < s.1) = true) :
    ¬ (t.1 ≤ c.toNat ∧ c.toNat ≤ t.2) := by
  obtain ⟨s, hs, hspan⟩ := mem_figureSpans h
  have hs := List.all_eq_true.mp apart s hs
  simp only [Bool.or_eq_true, decide_eq_true_eq] at hs
  omega

theorem isBlank_of_isFigure (h : isFigure c = true) : isBlank c = false := by
  by_contra hblank
  rw [Bool.not_eq_false] at hblank
  obtain ⟨t, ht, hspan⟩ := mem_blankSpans hblank
  have hapart : ∀ t ∈ blankSpans, figureSpans.all (fun s => s.2 < t.1 || t.2 < s.1) = true := by decide
  exact not_mem_span h (hapart t ht) hspan

theorem ne_of_isFigure (h : isFigure c = true) {d : Char} (hd : isFigure d = false) : c ≠ d := by
  rintro rfl
  rw [h] at hd
  contradiction

/-- The number that decimal digits write, the most significant of them first. -/
def decimalNumber? (cs : List Char) : Option Nat :=
  (cs.mapM decimalDigit?).map fun ds => Nat.ofDigits 10 ds.reverse

/-- How many decimal digits stand at the front. -/
def leadingDigits (cs : List Char) : Nat := (cs.takeWhile fun c => (decimalDigit? c).isSome).length

end Text

namespace Number

open Text

variable {cs : List Char} {values : List Nat}

theorem isDigit_digitChar : ∀ d < 10, (Nat.digitChar d).isDigit = true := by decide

theorem asciiDigits_cons_some {c : Char} {d : Nat} (h : decimalDigit? c = some d) (cs : List Char) :
    asciiDigits (c :: cs) = Nat.digitChar d :: asciiDigits cs := by
  simp [asciiDigits, h]

theorem asciiDigits_cons_none {c : Char} (h : decimalDigit? c = none) (cs : List Char) :
    asciiDigits (c :: cs) = c :: asciiDigits cs := by
  simp [asciiDigits, h]

theorem digitsValue_append_singleton (cs : List Char) (c : Char) :
    digitsValue (cs ++ [c]) = 10 * digitsValue cs + (c.toNat - 48) := by
  simp [digitsValue]

/-- The value of digits goes by their values, whatever script they are of. -/
theorem digitsValue_digitChars (h : ∀ d ∈ values, d < 10) :
    digitsValue (values.map Nat.digitChar) = Nat.ofDigits 10 values.reverse := by
  induction values using List.reverseRecOn with
  | nil => rfl
  | append_singleton values d ih =>
    obtain ⟨hvalues, hd⟩ := List.forall_mem_append.mp h
    have hd : d < 10 := hd d List.mem_cons_self
    rw [List.map_append, List.map_singleton, digitsValue_append_singleton, ih hvalues,
      Nat.toNat_digitChar_of_lt_ten hd, List.reverse_append, List.reverse_singleton,
      List.singleton_append, Nat.ofDigits_cons]
    omega

/-- Decimal digits become the ASCII digits of the same values. -/
theorem asciiDigits_of_mapM (h : cs.mapM decimalDigit? = some values) :
    asciiDigits cs = values.map Nat.digitChar ∧ ∀ d ∈ values, d < 10 := by
  induction cs generalizing values with
  | nil =>
    obtain rfl : [] = values := by simpa using h
    exact ⟨rfl, by simp⟩
  | cons c cs ih =>
    simp only [List.mapM_cons, Option.bind_eq_bind, Option.bind_eq_some_iff, Option.pure_def,
      Option.some.injEq] at h
    obtain ⟨d, hd, ds, hds, rfl⟩ := h
    obtain ⟨htext, hlt⟩ := ih hds
    rw [asciiDigits_cons_some hd, htext, List.forall_mem_cons]
    exact ⟨rfl, decimalDigit?_lt hd, hlt⟩

theorem isDigit_of_mem_asciiDigits (h : ∀ c ∈ cs, (decimalDigit? c).isSome = true) :
    ∀ c ∈ asciiDigits cs, c.isDigit = true := by
  intro c hc
  obtain ⟨c, hmem, rfl⟩ := List.mem_map.mp hc
  obtain ⟨d, hd⟩ := Option.isSome_iff_exists.mp (h c hmem)
  rw [hd]
  exact isDigit_digitChar d (decimalDigit?_lt hd)

theorem isFigure_of_mem_asciiDigits (h : ∀ c ∈ cs, Text.isFigure c = true) :
    ∀ c ∈ asciiDigits cs, Text.isFigure c = true := by
  intro c hc
  obtain ⟨c, hmem, rfl⟩ := List.mem_map.mp hc
  cases hd : decimalDigit? c with
  | some d => exact isFigure_of_isDigit (isDigit_digitChar d (decimalDigit?_lt hd))
  | none => exact h c hmem

/-- Figures have neither blanks around them nor a sign in front. -/
theorem readWhole_of_figures (h : ∀ c ∈ cs, Text.isFigure c = true) :
    readWhole cs = (readDigits (asciiDigits cs)).map Int.ofNat := by
  have hall := isFigure_of_mem_asciiDigits h
  have htrim : trimMargins cs = cs :=
    trimBy_of_forall fun c hc => by simp [isMargin, isBlank_of_isFigure (h c hc)]
  have hsign : readSign (asciiDigits cs) = (false, asciiDigits cs) :=
    readSign_of_notMem (fun hc => absurd (hall _ hc) (by decide)) fun hc => absurd (hall _ hc) (by decide)
  rw [readWhole, htrim, hsign]
  dsimp only
  cases readDigits (asciiDigits cs) <;> rfl

theorem mapM_eq_none_iff : cs.mapM decimalDigit? = none ↔ ∃ c ∈ cs, decimalDigit? c = none := by
  induction cs with
  | nil => simp
  | cons c cs ih =>
    rw [List.mapM_cons]
    cases hc : decimalDigit? c with
    | none => simp [hc]
    | some d =>
      cases hcs : cs.mapM decimalDigit? with
      | none => simpa [hc, hcs] using ih
      | some ds => simpa [hc, hcs] using ih

theorem decimalNumber?_eq_none_iff : decimalNumber? cs = none ↔ ∃ c ∈ cs, decimalDigit? c = none := by
  rw [decimalNumber?, Option.map_eq_none_iff, mapM_eq_none_iff]

theorem isSome_of_decimalNumber? {n : Nat} (h : decimalNumber? cs = some n) :
    ∀ c ∈ cs, (decimalDigit? c).isSome = true := by
  intro c hc
  by_contra hnone
  have hnumber := decimalNumber?_eq_none_iff.mpr ⟨c, hc, by simpa using hnone⟩
  rw [h] at hnumber
  contradiction

theorem isFigure_of_decimalNumber? {n : Nat} (h : decimalNumber? cs = some n) :
    ∀ c ∈ cs, Text.isFigure c = true := by
  intro c hc
  obtain ⟨d, hd⟩ := Option.isSome_iff_exists.mp (isSome_of_decimalNumber? h c hc)
  exact isFigure_of_decimalDigit? hd

theorem leadingDigits_le (cs : List Char) : leadingDigits cs ≤ cs.length :=
  (List.takeWhile_sublist _).length_le

theorem leadingDigits_of_decimalNumber? {n : Nat} (h : decimalNumber? cs = some n) :
    leadingDigits cs = cs.length := by
  rw [leadingDigits, List.takeWhile_eq_self_iff.mpr (isSome_of_decimalNumber? h)]

theorem asciiDigits_append (cs ds : List Char) :
    asciiDigits (cs ++ ds) = asciiDigits cs ++ asciiDigits ds := List.map_append

theorem length_asciiDigits (cs : List Char) : (asciiDigits cs).length = cs.length := List.length_map ..

/-- Figures are decimal digits up to the first that is none. -/
theorem exists_front (h : ∀ c ∈ cs, Text.isFigure c = true) : ∃ front rest, cs = front ++ rest ∧
    front.length = leadingDigits cs ∧ (∀ c ∈ front, (decimalDigit? c).isSome = true) ∧
    ∀ c ∈ rest.head?, decimalDigit? c = none ∧ c ≠ '_' := by
  let isDecimal (c : Char) : Bool := (decimalDigit? c).isSome
  refine ⟨cs.takeWhile isDecimal, cs.dropWhile isDecimal, List.takeWhile_append_dropWhile.symm, rfl,
    fun c hc => ?_, fun c hc => ⟨?_, ?_⟩⟩
  · exact List.mem_takeWhile_imp (p := isDecimal) hc
  · simpa [isDecimal] using Text.head?_dropWhile hc
  · have hmem : c ∈ cs := (List.dropWhile_sublist isDecimal).subset (List.mem_of_mem_head? hc)
    exact ne_of_isFigure (h c hmem) (by decide)

/-- Figures are a number if all of them are decimal digits and not too many; too many digits at the front
are noticed before anything else. -/
theorem readWhole_figures (hne : cs ≠ []) (h : ∀ c ∈ cs, Text.isFigure c = true) : readWhole cs =
    if digitLimit < leadingDigits cs then .error (.tooLong (leadingDigits cs))
    else match decimalNumber? cs with
      | some n => .ok n
      | none => .error .malformed := by
  obtain ⟨front, rest, hcs, hlength, hfront, hrest⟩ := exists_front h
  have hdigits := isDigit_of_mem_asciiDigits hfront
  have hhead : ∀ c ∈ (asciiDigits rest).head?, c.isDigit = false ∧ c ≠ '_' := by
    cases rest with
    | nil => simp [asciiDigits]
    | cons c rest =>
      obtain ⟨hnone, hne⟩ := hrest c rfl
      rw [asciiDigits_cons_none hnone]
      rintro _ ⟨⟩
      exact ⟨isDigit_of_decimalDigit?_none hnone, hne⟩
  have hnonempty : asciiDigits front ++ asciiDigits rest ≠ [] := by
    rw [← asciiDigits_append, ← hcs]
    exact fun hnil => hne (List.map_eq_nil_iff.mp hnil)
  rw [readWhole_of_figures h, hcs, asciiDigits_append, readDigits_append hdigits hhead hnonempty,
    length_asciiDigits, ← hcs, hlength]
  split
  next => rfl
  next =>
    cases rest with
    | nil =>
      rw [List.append_nil] at hcs
      obtain ⟨values, hvalues⟩ : ∃ values, cs.mapM decimalDigit? = some values := by
        refine Option.ne_none_iff_exists'.mp fun hnone => ?_
        obtain ⟨c, hc, hnone⟩ := mapM_eq_none_iff.mp hnone
        simpa [hnone] using hfront c (hcs ▸ hc)
      obtain ⟨htext, hlt⟩ := asciiDigits_of_mapM hvalues
      rw [← hcs, htext, digitsValue_digitChars hlt, decimalNumber?, hvalues]
      rfl
    | cons c rest =>
      have hnone : cs.mapM decimalDigit? = none :=
        mapM_eq_none_iff.mpr ⟨c, by simp [hcs], (hrest c rfl).1⟩
      rw [decimalNumber?, hnone, asciiDigits_cons_none (hrest c rfl).1]
      rfl

end Number

end TableAccess
