import Mathlib.Data.List.TakeWhile
import TableAccess.Proofs.Text.Trim
import TableAccess.Number.Whole

/-! Whole numbers that are written and read back. The digits of a number begin with zero for zero alone,
and up to `digitLimit` of them the reader takes (`readWhole_toDigits`). -/

namespace TableAccess.Number

open TableAccess.Text

theorem isDigit_of_mem_toDigits {n : Nat} {c : Char} (h : c ∈ Nat.toDigits 10 n) : c.isDigit = true :=
  Nat.isDigit_of_mem_toDigits (by decide) (by decide) h

theorem digitsValue_toDigits (n : Nat) : digitsValue (Nat.toDigits 10 n) = n :=
  Nat.ofDigitChars_ten_toDigits

theorem digitChar_ne_zero : ∀ d < 10, d ≠ 0 → Nat.digitChar d ≠ '0' := by decide

theorem head?_toDigits {n : Nat} (h : n ≠ 0) : (Nat.toDigits 10 n).head? ≠ some '0' := by
  induction n using Nat.strong_induction_on with
  | _ n ih =>
    rcases Nat.lt_or_ge n 10 with hlt | hge
    · rw [Nat.toDigits_of_lt_base hlt]
      simpa using digitChar_ne_zero n hlt h
    · rw [Nat.toDigits_of_base_le (by decide) hge, List.head?_append]
      have hq := ih (n / 10) (by omega) (by omega)
      have hne : (Nat.toDigits 10 (n / 10)).head? ≠ none := by
        simp [Nat.toDigits_ne_nil]
      cases hhead : (Nat.toDigits 10 (n / 10)).head? with
      | none => exact absurd hhead hne
      | some c => simpa [hhead] using hq

/-! ### Characters that are digits -/

def decimalDigits : List Char := ['0', '1', '2', '3', '4', '5', '6', '7', '8', '9']

theorem mem_of_isDigit {c : Char} (h : c.isDigit = true) : c ∈ decimalDigits := by
  have hbounds : 48 ≤ c.toNat ∧ c.toNat ≤ 57 := Char.isDigit_iff_toNat.mp h
  have hall : ∀ n < 10, Char.ofNat (48 + n) ∈ decimalDigits := by decide
  have hc := hall (c.toNat - 48) (by omega)
  rwa [show 48 + (c.toNat - 48) = c.toNat by omega, Char.ofNat_toNat] at hc

/-- What can be seen of each of the ten digits holds of a digit. -/
theorem of_decimalDigits {p : Char → Prop} [DecidablePred p] (h : decimalDigits.all (p ·) = true)
    {c : Char} (hc : c.isDigit = true) : p c :=
  of_decide_eq_true (List.all_eq_true.mp h c (mem_of_isDigit hc))

theorem isMargin_of_isDigit {c : Char} (h : c.isDigit = true) : isMargin c = false :=
  of_decimalDigits (p := (isMargin · = false)) (by decide) h

theorem isFigure_of_isDigit {c : Char} (h : c.isDigit = true) : Text.isFigure c = true :=
  of_decimalDigits (p := (Text.isFigure · = true)) (by decide) h

theorem asciiDigits_eq_self {cs : List Char} (h : ∀ c ∈ cs, c.isDigit = true) :
    asciiDigits cs = cs := by
  induction cs with
  | nil => rfl
  | cons c cs ih =>
    obtain ⟨hc, hcs⟩ := List.forall_mem_cons.mp h
    have hone : asciiDigits [c] = [c] :=
      of_decimalDigits (p := fun d => asciiDigits [d] = [d]) (by decide) hc
    calc asciiDigits (c :: cs) = asciiDigits [c] ++ asciiDigits cs := rfl
      _ = c :: cs := by rw [hone, ih hcs, List.singleton_append]

/-! ### The reader of whole numbers -/

theorem digitRun_append {ds rest : List Char} (h : ∀ c ∈ ds, c.isDigit = true)
    (hrest : ∀ c ∈ rest.head?, c.isDigit = false ∧ c ≠ '_') : digitRun (ds ++ rest) = (ds, rest) := by
  induction ds with
  | nil =>
    cases rest with
    | nil => rfl
    | cons c rest =>
      obtain ⟨hdigit, hne⟩ := hrest c rfl
      rw [List.nil_append, digitRun.eq_3 c rest fun _ hu => absurd hu hne]
      simp [hdigit, hne]
  | cons c ds ih =>
    obtain ⟨hc, hds⟩ := List.forall_mem_cons.mp h
    have hne : c ≠ '_' := by
      rintro rfl
      contradiction
    rw [List.cons_append, digitRun.eq_3 c _ fun _ hu => absurd hu hne, hc, ih hds]
    rfl

theorem readSign_of_notMem {cs : List Char} (hminus : '-' ∉ cs) (hplus : '+' ∉ cs) :
    readSign cs = (false, cs) := by
  unfold readSign
  split
  · exact absurd List.mem_cons_self hminus
  · exact absurd List.mem_cons_self hplus
  · rfl

theorem readSign_digits {cs : List Char} (h : ∀ c ∈ cs, c.isDigit = true) :
    readSign cs = (false, cs) :=
  readSign_of_notMem (fun hc => absurd (h _ hc) (by decide)) fun hc => absurd (h _ hc) (by decide)

theorem toDigits_suffix_wholeText (n : Int) : Nat.toDigits 10 n.natAbs <:+ wholeText n := by
  unfold wholeText
  split
  · exact List.suffix_cons ..
  · exact List.suffix_rfl

theorem readSign_wholeText (n : Int) :
    readSign (wholeText n) = (decide (n < 0), Nat.toDigits 10 n.natAbs) := by
  unfold wholeText
  split
  next hneg => rw [readSign, decide_eq_true hneg]
  next hneg => rw [readSign_digits fun c => isDigit_of_mem_toDigits, decide_eq_false hneg]

/-- The digits at the front decide first, by their number, and then what follows them. -/
theorem readDigits_append {ds rest : List Char} (h : ∀ c ∈ ds, c.isDigit = true)
    (hrest : ∀ c ∈ rest.head?, c.isDigit = false ∧ c ≠ '_') (hne : ds ++ rest ≠ []) :
    readDigits (ds ++ rest) =
      if digitLimit < ds.length then .error (.tooLong ds.length)
      else if rest.isEmpty then .ok (digitsValue ds)
      else .error .malformed := by
  cases ds with
  | nil =>
    have hrun : digitRun rest = ([], rest) := digitRun_append h hrest
    have hmore : rest ≠ [] := hne
    simp [readDigits, hrun, hmore]
  | cons d ds =>
    have hnot : '_' ∉ d :: ds := fun hmem => absurd (h '_' hmem) (by decide)
    have hhead : (d :: ds).head? ≠ some '_' := fun he => hnot (List.mem_of_mem_head? he)
    have hlast : (d :: ds).getLast? ≠ some '_' := fun he => hnot (List.mem_of_mem_getLast? he)
    have hfilter : (d :: ds).filter Char.isDigit = d :: ds := List.filter_eq_self.mpr h
    simp only [readDigits, digitRun_append h hrest, hfilter, List.isEmpty_cons, beq_iff_eq, hhead,
      hlast, Bool.false_or, Bool.or_eq_true, or_self, if_false]

theorem readDigits_digits {cs : List Char} (h : ∀ c ∈ cs, c.isDigit = true) (hne : cs ≠ [])
    (hlength : cs.length ≤ digitLimit) : readDigits cs = .ok (digitsValue cs) := by
  have hread := @readDigits_append cs [] h (by simp) (by simpa using hne)
  rw [List.append_nil, if_neg (Nat.not_lt.mpr hlength)] at hread
  exact hread

theorem readWhole_toDigits {n : Nat} (h : (Nat.toDigits 10 n).length ≤ digitLimit) :
    readWhole (Nat.toDigits 10 n) = .ok n := by
  have hdigits : ∀ c ∈ Nat.toDigits 10 n, c.isDigit = true := fun c => isDigit_of_mem_toDigits
  have htrim : trimMargins (Nat.toDigits 10 n) = Nat.toDigits 10 n :=
    trimBy_of_forall fun c hc => isMargin_of_isDigit (hdigits c hc)
  have hread : readDigits (Nat.toDigits 10 n) = .ok n := by
    rw [readDigits_digits hdigits Nat.toDigits_ne_nil h, digitsValue_toDigits]
  rw [readWhole, htrim, asciiDigits_eq_self hdigits, readSign_digits hdigits]
  dsimp only
  rw [hread]
  rfl

end TableAccess.Number
