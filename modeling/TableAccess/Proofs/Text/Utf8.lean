import Mathlib.Data.List.TakeWhile
import TableAccess.Text.Utf8

/-! Text that is written as bytes and read back. A form of two, three or four bytes is a first byte that
says how many bytes follow, and those (`step_form`); each character is written in such a form or as one
byte, so a step of the reader undoes it (`step_encodeChar`), and reading undoes writing
(`decode_encode`). -/

namespace TableAccess.Text.Utf8

theorem toNat_toUInt8 {n : Nat} (h : n < 256) : n.toUInt8.toNat = n := by
  rw [Nat.toUInt8_eq, UInt8.toNat_ofNat']
  exact Nat.mod_eq_of_lt h

/-- The byte for the last six bits of a number. -/
def tailByte (n : Nat) : UInt8 := (0x80 + n % 64).toUInt8

theorem toNat_tailByte (n : Nat) : (tailByte n).toNat = 0x80 + n % 64 := toNat_toUInt8 (by omega)

theorem isTail_tailByte (n : Nat) : isTail (tailByte n) = true := by
  simp only [isTail, Bool.and_eq_true, decide_eq_true_eq, UInt8.le_iff_toNat_le,
    UInt8.lt_iff_toNat_lt, toNat_tailByte]
  change 128 ≤ _ ∧ _ < 192
  omega

theorem tailByte_between (n : Nat) (low high : UInt8) (hlow : low.toNat ≤ 0x80 + n % 64)
    (hhigh : 0x80 + n % 64 ≤ high.toNat) : ¬ (tailByte n < low || high < tailByte n) = true := by
  simp only [Bool.or_eq_true, decide_eq_true_eq, UInt8.lt_iff_toNat_lt, toNat_tailByte]
  omega

/-! ### First bytes -/

theorem shape?_two : ∀ q < 32, 2 ≤ q → shape? (0xC0 + q).toUInt8 = some (0x80, 0xBF, 0) := by decide

theorem shape?_three : ∀ q < 16, shape? (0xE0 + q).toUInt8 =
    some (if q = 0 then 0xA0 else 0x80, if q = 13 then 0x9F else 0xBF, 1) := by decide

theorem shape?_four : ∀ q < 5, shape? (0xF0 + q).toUInt8 =
    some (if q = 0 then 0x90 else 0x80, if q = 4 then 0x8F else 0xBF, 2) := by decide

/-! ### A character -/

/-- A first byte, a byte within its bounds, and as many more as it says. -/
theorem step_form (position : Nat) {b t low high : UInt8} (tails rest : List UInt8)
    (hb : ¬ b < 0x80) (hshape : shape? b = some (low, high, tails.length))
    (ht : ¬ (t < low || high < t) = true) (htails : ∀ x ∈ tails, isTail x = true) :
    step position (b :: t :: (tails ++ rest)) =
      .ok (some (Char.ofNat (pointOf b (t :: tails)), rest)) := by
  have htake : ((tails ++ rest).take tails.length).takeWhile isTail = tails := by
    rw [List.take_left, List.takeWhile_eq_self_iff.mpr htails]
  simp only [step, if_neg hb, hshape, if_neg ht, htake, if_true, List.drop_left]

theorem toNat_valid (c : Char) : c.toNat < 0xD800 ∨ 0xDFFF < c.toNat ∧ c.toNat < 0x110000 := c.valid

theorem first_ge {base : Nat} (q : Nat) (h : 0x80 ≤ base) (hq : base + q < 256) :
    ¬ (base + q).toUInt8 < 0x80 := by
  rw [UInt8.lt_iff_toNat_lt, toNat_toUInt8 hq]
  change ¬ base + q < 128
  omega

theorem encodeChar_two {c : Char} (h : 0x80 ≤ c.toNat) (h' : c.toNat < 0x800) :
    encodeChar c = [(0xC0 + c.toNat / 64).toUInt8, tailByte c.toNat] := by
  unfold encodeChar
  rw [if_neg (by omega), if_pos h']
  rfl

theorem encodeChar_three {c : Char} (h : 0x800 ≤ c.toNat) (h' : c.toNat < 0x10000) :
    encodeChar c =
      [(0xE0 + c.toNat / 4096).toUInt8, tailByte (c.toNat / 64), tailByte c.toNat] := by
  unfold encodeChar
  rw [if_neg (by omega), if_neg (by omega), if_pos h']
  simp [Nat.shiftRight_eq_div_pow, tailByte]

theorem encodeChar_four {c : Char} (h : 0x10000 ≤ c.toNat) :
    encodeChar c = [(0xF0 + c.toNat / 262144).toUInt8, tailByte (c.toNat / 4096),
      tailByte (c.toNat / 64), tailByte c.toNat] := by
  unfold encodeChar
  rw [if_neg (by omega), if_neg (by omega), if_neg (by omega)]
  simp [Nat.shiftRight_eq_div_pow, tailByte]

theorem step_two (position : Nat) {c : Char} (rest : List UInt8) (h : 0x80 ≤ c.toNat)
    (h' : c.toNat < 0x800) : step position (encodeChar c ++ rest) = .ok (some (c, rest)) := by
  have hq : 0xC0 + c.toNat / 64 < 256 := by omega
  have hpoint : pointOf (0xC0 + c.toNat / 64).toUInt8 [tailByte c.toNat] = c.toNat := by
    simp [pointOf, toNat_tailByte]
    omega
  have hsecond := tailByte_between c.toNat 0x80 0xBF
    (show 128 ≤ _ by omega) (show _ ≤ 191 by omega)
  have hform := step_form position [] rest (first_ge _ (by decide) hq)
    (shape?_two (c.toNat / 64) (by omega) (by omega)) hsecond (by simp)
  rw [hpoint, Char.ofNat_toNat] at hform
  rw [encodeChar_two h h']
  exact hform

/-- The second byte of a form of three keeps out shorter forms and surrogates. -/
theorem step_three (position : Nat) {c : Char} (rest : List UInt8) (h : 0x800 ≤ c.toNat)
    (h' : c.toNat < 0x10000) : step position (encodeChar c ++ rest) = .ok (some (c, rest)) := by
  have hvalid := toNat_valid c
  have hq : 0xE0 + c.toNat / 4096 < 256 := by omega
  have hpoint : pointOf (0xE0 + c.toNat / 4096).toUInt8
      [tailByte (c.toNat / 64), tailByte c.toNat] = c.toNat := by
    simp [pointOf, toNat_tailByte]
    omega
  have hsecond := tailByte_between (c.toNat / 64)
    (if c.toNat / 4096 = 0 then 0xA0 else 0x80) (if c.toNat / 4096 = 13 then 0x9F else 0xBF)
    (by split <;> [change 160 ≤ _; change 128 ≤ _] <;> omega)
    (by split <;> [change _ ≤ 159; change _ ≤ 191] <;> omega)
  have hform := step_form position [tailByte c.toNat] rest (first_ge _ (by decide) hq)
    (shape?_three (c.toNat / 4096) (by omega)) hsecond (by simp [isTail_tailByte])
  rw [hpoint, Char.ofNat_toNat] at hform
  rw [encodeChar_three h h']
  exact hform

/-- The second byte of a form of four keeps out shorter forms and what lies above U+10FFFF. -/
theorem step_four (position : Nat) {c : Char} (rest : List UInt8) (h : 0x10000 ≤ c.toNat) :
    step position (encodeChar c ++ rest) = .ok (some (c, rest)) := by
  have hvalid := toNat_valid c
  have hq : 0xF0 + c.toNat / 262144 < 256 := by omega
  have hpoint : pointOf (0xF0 + c.toNat / 262144).toUInt8
      [tailByte (c.toNat / 4096), tailByte (c.toNat / 64), tailByte c.toNat] = c.toNat := by
    simp [pointOf, toNat_tailByte]
    omega
  have hsecond := tailByte_between (c.toNat / 4096)
    (if c.toNat / 262144 = 0 then 0x90 else 0x80) (if c.toNat / 262144 = 4 then 0x8F else 0xBF)
    (by split <;> [change 144 ≤ _; change 128 ≤ _] <;> omega)
    (by split <;> [change _ ≤ 143; change _ ≤ 191] <;> omega)
  have hform := step_form position [tailByte (c.toNat / 64), tailByte c.toNat] rest
    (first_ge _ (by decide) hq) (shape?_four (c.toNat / 262144) (by omega)) hsecond
    (by simp [isTail_tailByte])
  rw [hpoint, Char.ofNat_toNat] at hform
  rw [encodeChar_four h]
  exact hform

/-- Reading undoes the writing of a character, whatever follows it. -/
theorem step_encodeChar (position : Nat) (c : Char) (rest : List UInt8) :
    step position (encodeChar c ++ rest) = .ok (some (c, rest)) := by
  rcases Nat.lt_or_ge c.toNat 0x80 with h₁ | h₁
  · have hencode : encodeChar c = [c.toNat.toUInt8] := if_pos h₁
    have hn : c.toNat.toUInt8.toNat = c.toNat := toNat_toUInt8 (by omega)
    have hlt : c.toNat.toUInt8 < 0x80 := by rwa [UInt8.lt_iff_toNat_lt, hn]
    rw [hencode, List.singleton_append, step, if_pos hlt, hn, Char.ofNat_toNat]
  rcases Nat.lt_or_ge c.toNat 0x800 with h₂ | h₂
  · exact step_two position rest h₁ h₂
  rcases Nat.lt_or_ge c.toNat 0x10000 with h₃ | h₃
  · exact step_three position rest h₂ h₃
  · exact step_four position rest h₃

theorem encodeChar_ne_nil (c : Char) : encodeChar c ≠ [] := by
  unfold encodeChar
  dsimp only
  split
  · exact List.cons_ne_nil _ _
  split
  · exact List.cons_ne_nil _ _
  split <;> exact List.cons_ne_nil _ _

/-! ### A text -/

theorem length_le_encode (cs : List Char) : cs.length ≤ (encode cs).length := by
  induction cs with
  | nil => exact Nat.le_refl 0
  | cons c cs ih =>
    have hc := List.length_pos_iff.mpr (encodeChar_ne_nil c)
    have hencode : encode (c :: cs) = encodeChar c ++ encode cs := List.flatMap_cons
    rw [hencode, List.length_append, List.length_cons]
    omega

theorem decodeFrom_encode {cs : List Char} {fuel : Nat} (h : cs.length < fuel) (position : Nat) :
    decodeFrom fuel position (encode cs) = .ok cs := by
  induction cs generalizing fuel position with
  | nil =>
    cases fuel with
    | zero => contradiction
    | succ fuel => rfl
  | cons c cs ih =>
    obtain ⟨fuel, rfl⟩ := Nat.exists_eq_succ_of_ne_zero (Nat.ne_zero_of_lt h)
    have hencode : encode (c :: cs) = encodeChar c ++ encode cs := List.flatMap_cons
    rw [hencode, decodeFrom, step_encodeChar]
    show (decodeFrom fuel _ (encode cs) >>= _) = _
    rw [ih (Nat.lt_of_succ_lt_succ h)]
    rfl

theorem decode_encode (cs : List Char) : decode (encode cs) = .ok cs :=
  decodeFrom_encode (Nat.lt_succ_of_le (length_le_encode cs)) 0

end TableAccess.Text.Utf8
