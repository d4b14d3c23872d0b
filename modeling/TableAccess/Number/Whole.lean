import TableAccess.Text.Blank
import TableAccess.Text.Alphabet

/-! Whole numbers, their texts and the powers of two and ten. In a text, blanks around the number are
allowed, one sign in front of it, decimal digits of any script, and single underscores between
digits. A text of more than `digitLimit` digits is refused before its end is looked at. A power with
an exponent below zero is one, so that a number times `twoTo e` divided by `twoTo (-e)` is the number
scaled by the `e`th power, whatever the sign of `e`. -/

namespace TableAccess.Number

open TableAccess.Text

/-- The most digits that a whole number has where texts are read or written. -/
def digitLimit : Nat := 4300

/-- The blanks that may stand around a number: all but the four information separators. -/
def isMargin (c : Char) : Bool := isBlank c && !(28 ≤ c.toNat && c.toNat ≤ 31)

def trimMargins (cs : List Char) : List Char := trimBy isMargin cs

/-- Digits of any script become ASCII digits. -/
def asciiDigits (cs : List Char) : List Char :=
  cs.map fun c => match decimalDigit? c with
    | some d => Nat.digitChar d
    | none => c

def digitsValue (cs : List Char) : Nat := cs.foldl (fun n c => 10 * n + (c.toNat - 48)) 0

/-- The sign in front of a number and what follows it. -/
def readSign : List Char → Bool × List Char
  | '-' :: cs => (true, cs)
  | '+' :: cs => (false, cs)
  | cs => (false, cs)

/-- Why a text is no whole number. -/
inductive WholeError where
  | malformed
  | tooLong (digits : Nat)
  deriving DecidableEq, Repr

/-- The longest run of digits and underscores at the start in which no underscore repeats, and
the rest. -/
def digitRun : List Char → List Char × List Char
  | [] => ([], [])
  | '_' :: '_' :: cs => ([], '_' :: '_' :: cs)
  | c :: cs =>
    if c.isDigit || c == '_' then
      let (run, rest) := digitRun cs
      (c :: run, rest)
    else ([], c :: cs)

/-- A number without its sign, in ASCII digits. -/
def readDigits (cs : List Char) : Except WholeError Nat :=
  let (run, rest) := digitRun cs
  let digits := run.filter Char.isDigit
  if run.isEmpty || run.head? == some '_' || run.getLast? == some '_' then .error .malformed
  else if digitLimit < digits.length then .error (.tooLong digits.length)
  else if rest.isEmpty then .ok (digitsValue digits)
  else .error .malformed

def readWhole (cs : List Char) : Except WholeError Int := do
  let (negative, body) := readSign (asciiDigits (trimMargins cs))
  let n ← readDigits body
  return if negative then -(n : Int) else n

def wholeText (n : Int) : List Char :=
  if n < 0 then '-' :: Nat.toDigits 10 n.natAbs else Nat.toDigits 10 n.natAbs

/-! ### Powers -/

def twoTo (e : Int) : Nat := Nat.pow 2 e.toNat

def tenTo (e : Int) : Nat := Nat.pow 10 e.toNat

end TableAccess.Number
