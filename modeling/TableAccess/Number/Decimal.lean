import TableAccess.Number.Whole

/-! Decimal numbers with the digits they were written with: `1.50` and `1.5` are equal numbers
with different texts. A number is written with an exponent when its exponent is positive or its
leading digit stands below the sixth place after the point. -/

namespace TableAccess.Number

inductive Decimal where
  | finite (negative : Bool) (coefficient : Nat) (exponent : Int)
  | infinite (negative : Bool)
  | nan (negative signalling : Bool) (payload : Nat)
  deriving DecidableEq, Repr

namespace Decimal

def signText (negative : Bool) : List Char := if negative then ['-'] else []

def magnitude (coefficient : Nat) (exponent : Int) : List Char :=
  let digits := Nat.toDigits 10 coefficient
  let left : Int := exponent + digits.length
  let point : Int := if exponent ≤ 0 ∧ -6 < left then left else 1
  let figures :=
    if point ≤ 0 then '0' :: '.' :: List.replicate (-point).toNat '0' ++ digits
    else if digits.length ≤ point.toNat then
      digits ++ List.replicate (point.toNat - digits.length) '0'
    else digits.take point.toNat ++ '.' :: digits.drop point.toNat
  if left = point then figures
  else figures ++ 'E' :: (if left < point then '-' else '+') ::
    Nat.toDigits 10 (left - point).natAbs

def toText : Decimal → List Char
  | .finite negative c e => signText negative ++ magnitude c e
  | .infinite negative => signText negative ++ "Infinity".toList
  | .nan negative signalling payload =>
    signText negative ++ (if signalling then ['s'] else []) ++ ['N', 'a', 'N'] ++
      (if payload = 0 then [] else Nat.toDigits 10 payload)

def truncate? : Decimal → Option Int
  | .finite negative c e =>
    let size : Nat := c * tenTo e / tenTo (-e)
    some (if negative then -size else size)
  | _ => none

def isZero : Decimal → Bool
  | .finite _ c _ => c == 0
  | _ => false

end Decimal

end TableAccess.Number
