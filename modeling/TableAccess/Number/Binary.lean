import TableAccess.Number.Whole

/-! Binary floating point numbers with 53 bits, kept as a mantissa and a power of two, so that
every question about them is one about whole numbers. A decimal number is rounded to the nearest, ties
to the even mantissa. Writing takes the fewest digits that read back to the same number and, among
those, the nearest; exponents from -4 to 15 are written positionally. -/

namespace TableAccess.Number

/-- The number `±digits · 10^exponent`, as written. -/
structure Scientific where
  negative : Bool
  digits : Nat
  exponent : Int
  deriving DecidableEq, Repr

/-- A binary number: `mantissa · 2^exponent` with a mantissa below `2^53`. -/
inductive Binary where
  | nan
  | infinite (negative : Bool)
  | finite (negative : Bool) (mantissa : Nat) (exponent : Int)
  deriving DecidableEq, Repr

namespace Binary

def zero (negative : Bool) : Binary := .finite negative 0 0

/-- The quotient rounded to nearest, a tie going to the even number. -/
def roundDiv (num den : Nat) : Nat :=
  let q := num / den
  let r := num % den
  if 2 * r < den then q else if den < 2 * r then q + 1 else if q % 2 = 0 then q else q + 1

/-- `num / den` in units of `2^exponent`, rounded. -/
def mantissaAt (num den : Nat) (exponent : Int) : Nat :=
  roundDiv (num * twoTo (-exponent)) (den * twoTo exponent)

/-- The exponent at which the mantissa of `num / den` has 53 bits, at least the smallest one. -/
def exponentOf (num den : Nat) : Int :=
  let guess : Int := (num.log2 : Int) - den.log2 - 52
  let fits (e : Int) : Bool :=
    twoTo 52 * (den * twoTo e) ≤ num * twoTo (-e)
  max (-1074) (if fits guess then guess else guess - 1)

/-- The binary number nearest to `num / den`. -/
def ofRatio (negative : Bool) (num den : Nat) : Binary :=
  if num = 0 then zero negative
  else
    let e := exponentOf num den
    let m := mantissaAt num den e
    let (m, e) := if m = twoTo 53 then (twoTo 52, e + 1) else (m, e)
    if m = 0 then zero negative
    else if 971 < e then .infinite negative
    else .finite negative m e

/-- The number of decimal digits of `n`. -/
def digitCount (n : Nat) : Nat := (Nat.toDigits 10 n).length

/-- The binary number nearest to a decimal one; far outside the range no power is computed. -/
def ofScientific (s : Scientific) : Binary :=
  let top : Int := digitCount s.digits + s.exponent
  if s.digits = 0 ∨ top < -400 then zero s.negative
  else if 400 < top then .infinite s.negative
  else ofRatio s.negative (s.digits * tenTo s.exponent) (tenTo (-s.exponent))

/-- A point on a decimal grid: `digits · 10^power`. -/
structure Grid where
  digits : Nat
  power : Int

/-- The interval of numbers that round to `mantissa · 2^exponent`, scaled by `2^(exponent - 2)`:
lower end, upper end and whether the ends belong to it. -/
def interval (mantissa : Nat) (exponent : Int) : Nat × Nat × Bool :=
  let low := if mantissa = twoTo 52 ∧ -1074 < exponent then 4 * mantissa - 1 else 4 * mantissa - 2
  (low, 4 * mantissa + 2, mantissa % 2 = 0)

/-- The power of ten of the leading digit of `num / den`. -/
def decimalExponent (num den : Nat) : Int :=
  let reaches (k : Int) : Bool :=
    tenTo k * den ≤ num * tenTo (-k)
  let guess : Int := Int.fdiv (((num.log2 : Int) - den.log2) * 30103) 100000
  ([guess + 2, guess + 1, guess, guess - 1].find? reaches).getD (guess - 2)

/-- The nearer of the two neighbours of `num / den` on the grid of `count` digits, if one of them
lies in the interval. -/
def onGrid (num den low high : Nat) (closed : Bool) (leading : Int) (count : Nat) : Option Grid :=
  let power := leading - count + 1
  let up := tenTo power
  let down := tenTo (-power)
  let below := num * down / (den * up)
  let rest := num * down % (den * up)
  let inside (c : Nat) : Bool :=
    let x := c * up * den
    if closed then low * down ≤ x && x ≤ high * down else low * down < x && x < high * down
  let nearer := if 2 * rest < den * up then below else if den * up < 2 * rest then below + 1
    else if below % 2 = 0 then below else below + 1
  match inside below, inside (below + 1) with
  | true, true => some ⟨nearer, power⟩
  | true, false => some ⟨below, power⟩
  | false, true => some ⟨below + 1, power⟩
  | false, false => none

/-- Removes the zeros at the end of the digits. -/
def Grid.trim (fuel : Nat) (g : Grid) : Grid :=
  match fuel with
  | 0 => g
  | fuel + 1 =>
    if g.digits ≠ 0 ∧ g.digits % 10 = 0 then Grid.trim fuel ⟨g.digits / 10, g.power + 1⟩ else g

/-- The fewest digits that read back as `mantissa · 2^exponent`; 17 digits always suffice. -/
def shortest (mantissa : Nat) (exponent : Int) : Grid :=
  let up := twoTo (exponent - 2)
  let den := twoTo (2 - exponent)
  let num := 4 * mantissa * up
  let (low, high, closed) := interval mantissa exponent
  let leading := decimalExponent num den
  let found := (List.range 17).findSome? fun i =>
    onGrid num den (low * up) (high * up) closed leading (i + 1)
  (found.getD ⟨num / den, 0⟩).trim 20

/-- Digits with a decimal point after `point` of them, and `.0` for a whole number. -/
def positional (digits : List Char) (point : Int) : List Char :=
  if point ≤ 0 then '0' :: '.' :: List.replicate (-point).toNat '0' ++ digits
  else if digits.length ≤ point.toNat then
    digits ++ List.replicate (point.toNat - digits.length) '0' ++ ['.', '0']
  else digits.take point.toNat ++ '.' :: digits.drop point.toNat

/-- One digit, the fraction, and an exponent of at least two digits with its sign. -/
def exponential (digits : List Char) (exponent : Int) : List Char :=
  let fraction := match digits.drop 1 with
    | [] => []
    | ds => '.' :: ds
  let size := Nat.toDigits 10 exponent.natAbs
  let size := if size.length < 2 then '0' :: size else size
  digits.take 1 ++ fraction ++ 'e' :: (if exponent < 0 then '-' else '+') :: size

def magnitude (mantissa : Nat) (exponent : Int) : List Char :=
  if mantissa = 0 then ['0', '.', '0']
  else
    let g := shortest mantissa exponent
    let digits := Nat.toDigits 10 g.digits
    let leading : Int := digits.length - 1 + g.power
    if -4 ≤ leading ∧ leading < 16 then positional digits (leading + 1)
    else exponential digits leading

def toText : Binary → List Char
  | .nan => ['n', 'a', 'n']
  | .infinite negative => (if negative then ['-'] else []) ++ ['i', 'n', 'f']
  | .finite negative m e => (if negative then ['-'] else []) ++ magnitude m e

/-- The number without its fraction, for a finite one. -/
def truncate? : Binary → Option Int
  | .finite negative m e =>
    let size : Nat := m * twoTo e / twoTo (-e)
    some (if negative then -size else size)
  | _ => none

def isZero : Binary → Bool
  | .finite _ m _ => m == 0
  | _ => false

end Binary

end TableAccess.Number
