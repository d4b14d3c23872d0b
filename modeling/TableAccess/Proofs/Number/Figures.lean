import Mathlib.Data.List.Basic
import TableAccess.Number.Binary
import TableAccess.Number.Decimal
import TableAccess.Number.Whole

/-! The characters of number texts: ASCII digits and letters, signs and points. No quote is among them,
so a number in a statement neither begins a string constant nor ends one. -/

namespace TableAccess.Number

def isFigure (c : Char) : Bool := c.isAlphanum || c == '-' || c == '+' || c == '.'

theorem isFigure_of_toUpper {c : Char} (h : isFigure c.toUpper = true) : isFigure c = true := by
  unfold Char.toUpper at h
  split at h
  next hsmall =>
    have hlower : c.isLower = true :=
      Bool.and_eq_true_iff.mpr ⟨decide_eq_true hsmall.1, decide_eq_true hsmall.2⟩
    have halphanum : c.isAlphanum = true := by
      show ((c.isUpper || c.isLower) || c.isDigit) = true
      rw [hlower, Bool.or_true, Bool.true_or]
    simp [isFigure, halphanum]
  next => exact h

/-- A text of such characters only. -/
def IsFigures (cs : List Char) : Prop := ∀ c ∈ cs, isFigure c = true

instance (cs : List Char) : Decidable (IsFigures cs) := List.decidableBAll _ cs

namespace IsFigures

variable {xs ys ds : List Char}

theorem quote_notMem (h : IsFigures xs) : '\'' ∉ xs := fun hc => absurd (h _ hc) (by decide)

theorem append (h : IsFigures xs) (h' : IsFigures ys) : IsFigures (xs ++ ys) :=
  List.forall_mem_append.mpr ⟨h, h'⟩

theorem cons {c : Char} (hc : isFigure c = true) (h : IsFigures xs) : IsFigures (c :: xs) :=
  List.forall_mem_cons.mpr ⟨hc, h⟩

theorem take (h : IsFigures ds) (n : Nat) : IsFigures (ds.take n) :=
  fun c hc => h c (List.mem_of_mem_take hc)

theorem drop (h : IsFigures ds) (n : Nat) : IsFigures (ds.drop n) :=
  fun c hc => h c (List.mem_of_mem_drop hc)

theorem digits (n : Nat) : IsFigures (Nat.toDigits 10 n) := by
  intro c hc
  have hdigit := Nat.isDigit_of_mem_toDigits (by decide) (by decide) hc
  simp [isFigure, Char.isAlphanum, hdigit]

theorem zeros (n : Nat) : IsFigures (List.replicate n '0') := by
  intro c hc
  rw [List.eq_of_mem_replicate hc]
  decide

/-- Digits behind a point and zeros. -/
theorem belowOne (h : IsFigures ds) (n : Nat) :
    IsFigures ('0' :: '.' :: List.replicate n '0' ++ ds) :=
  .cons (by decide) (.cons (by decide) ((zeros n).append h))

/-- Digits around a point. -/
theorem pointed (h : IsFigures ds) (n : Nat) : IsFigures (ds.take n ++ '.' :: ds.drop n) :=
  (h.take n).append (.cons (by decide) (h.drop n))

end IsFigures

theorem isFigures_wholeText (n : Int) : IsFigures (wholeText n) := by
  unfold wholeText
  split
  · exact .cons (by decide) (.digits _)
  · exact .digits _

namespace Binary

theorem isFigures_positional {ds : List Char} (h : IsFigures ds) (point : Int) :
    IsFigures (positional ds point) := by
  unfold positional
  split
  · exact h.belowOne _
  · split
    · exact (h.append (.zeros _)).append (by decide)
    · exact h.pointed _

theorem isFigures_exponential {ds : List Char} (h : IsFigures ds) (exponent : Int) :
    IsFigures (exponential ds exponent) := by
  have hsign : isFigure (if exponent < 0 then '-' else '+') = true := by split <;> decide
  have hrest := h.drop 1
  unfold exponential
  refine ((h.take 1).append ?_).append (.cons (by decide) (.cons hsign ?_))
  · split
    · decide
    · exact .cons (by decide) hrest
  · split
    · exact .cons (by decide) (.digits _)
    · exact .digits _

theorem isFigures_magnitude (mantissa : Nat) (exponent : Int) :
    IsFigures (magnitude mantissa exponent) := by
  unfold magnitude
  split
  · decide
  · dsimp only
    split
    · exact isFigures_positional (.digits _) _
    · exact isFigures_exponential (.digits _) _

theorem isFigures_toText (x : Binary) : IsFigures x.toText := by
  cases x with
  | nan => decide
  | infinite negative => cases negative <;> decide
  | finite negative mantissa exponent =>
    have hsign : IsFigures (if negative then ['-'] else []) := by cases negative <;> decide
    exact hsign.append (isFigures_magnitude mantissa exponent)

end Binary

namespace Decimal

theorem isFigures_signText (negative : Bool) : IsFigures (signText negative) := by
  cases negative <;> decide

theorem isFigures_magnitude (coefficient : Nat) (exponent : Int) :
    IsFigures (magnitude coefficient exponent) := by
  unfold magnitude
  extract_lets digits left point figures
  have hdigits : IsFigures digits := .digits coefficient
  have hfigures : IsFigures figures := by
    unfold figures
    split
    · exact hdigits.belowOne _
    · split
      · exact hdigits.append (.zeros _)
      · exact hdigits.pointed _
  have hsign : isFigure (if left < point then '-' else '+') = true := by split <;> decide
  split
  · exact hfigures
  · exact hfigures.append (.cons (by decide) (.cons hsign (.digits _)))

theorem isFigures_toText (x : Decimal) : IsFigures x.toText := by
  cases x with
  | finite negative c e => exact (isFigures_signText negative).append (isFigures_magnitude c e)
  | infinite negative => cases negative <;> decide
  | nan negative signalling payload =>
    have hmark : IsFigures (if signalling then ['s'] else []) := by cases signalling <;> decide
    have hpayload : IsFigures (if payload = 0 then [] else Nat.toDigits 10 payload) := by
      split
      · decide
      · exact .digits payload
    exact (((isFigures_signText negative).append hmark).append (by decide)).append hpayload

end Decimal

end TableAccess.Number
