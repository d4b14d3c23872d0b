import TableAccess.Value
import TableAccess.Number.Whole

/-! Reading JSON texts. Beside the standard the reader takes `NaN`, `Infinity` and `-Infinity`;
of entries with one key the last wins, in the place of the first; whole numbers are exact up to
the digit limit. Blanks are the four of JSON and nothing else. Two escapes in a row that are the
halves of a surrogate pair stand for one character; a half on its own is kept, but in a key, where it
becomes U+FFFD. -/

namespace TableAccess.Json

open Number
open TableAccess.Text (Point)

def isSpace (c : Char) : Bool := c == ' ' || c == '\t' || c == '\n' || c == '\r'

def skipSpace (cs : List Char) : List Char := cs.dropWhile isSpace

def hexDigit? (c : Char) : Option Nat :=
  let n := c.toNat
  if 48 ≤ n ∧ n ≤ 57 then some (n - 48)
  else if 65 ≤ n ∧ n ≤ 70 then some (n - 55)
  else if 97 ≤ n ∧ n ≤ 102 then some (n - 87)
  else none

def hexUnit? (a b c d : Char) : Option Nat := do
  let a ← hexDigit? a
  let b ← hexDigit? b
  let c ← hexDigit? c
  let d ← hexDigit? d
  return ((a * 16 + b) * 16 + c) * 16 + d

/-- What a unit stands for on its own: a character, or half of a surrogate pair. -/
def unitPoint (n : Nat) : Point :=
  if h : 0xD800 ≤ n ∧ n < 0xE000 then .half ⟨n - 0xD800, by omega⟩ else .char (Char.ofNat n)

def pairChar (high low : Nat) : Char :=
  Char.ofNat (0x10000 + (high - 0xD800) * 0x400 + (low - 0xDC00))

def simpleEscape? (c : Char) : Option Char :=
  if c = '"' ∨ c = '\\' ∨ c = '/' then some c
  else if c = 'b' then some '\x08'
  else if c = 'f' then some '\x0c'
  else if c = 'n' then some '\n'
  else if c = 'r' then some '\r'
  else if c = 't' then some '\t'
  else none

/-- The rest of a string after its opening quote. -/
def readString : List Char → Option (List Point × List Char)
  | [] => none
  | '"' :: cs => some ([], cs)
  | '\\' :: 'u' :: a :: b :: c :: d :: cs =>
    match hexUnit? a b c d with
    | none => none
    | some high =>
      match cs with
      | '\\' :: 'u' :: e :: f :: g :: h :: rest =>
        match hexUnit? e f g h with
        | some low =>
          if 0xD800 ≤ high ∧ high < 0xDC00 ∧ 0xDC00 ≤ low ∧ low < 0xE000 then
            (readString rest).map fun (s, r) => (.char (pairChar high low) :: s, r)
          else (readString ('\\' :: 'u' :: e :: f :: g :: h :: rest)).map fun (s, r) =>
            (unitPoint high :: s, r)
        | none => none
      | cs => (readString cs).map fun (s, r) => (unitPoint high :: s, r)
  | '\\' :: e :: cs =>
    match simpleEscape? e with
    | some c => (readString cs).map fun (s, r) => (.char c :: s, r)
    | none => none
  | c :: cs =>
    if c.toNat < 0x20 ∨ c = '\\' then none
    else (readString cs).map fun (s, r) => (.char c :: s, r)
  termination_by cs => cs.length

/-- The text at these places as a value. -/
def textOf (points : List Point) : Value :=
  if h : points.any Point.isHalf = true then .ragged ⟨points, h⟩
  else .text (String.ofList (points.map Point.shown))

/-- The figures before point and exponent: a single zero, or digits that begin with another. -/
def readWholePart : List Char → Option (List Char × List Char)
  | '0' :: cs => some (['0'], cs)
  | cs =>
    let ds := cs.takeWhile Char.isDigit
    if ds.isEmpty then none else some (ds, cs.dropWhile Char.isDigit)

/-- A point with at least one digit after it, if the text continues so. -/
def readFraction : List Char → List Char × List Char
  | '.' :: cs =>
    let ds := cs.takeWhile Char.isDigit
    if ds.isEmpty then ([], '.' :: cs) else (ds, cs.dropWhile Char.isDigit)
  | cs => ([], cs)

/-- An exponent with at least one digit, if the text continues so. -/
def readExponent (cs : List Char) : Option Int × List Char :=
  match cs with
  | [] => (none, [])
  | c :: rest =>
    if c = 'e' ∨ c = 'E' then
      let (negative, body) := readSign rest
      let ds := body.takeWhile Char.isDigit
      if ds.isEmpty then (none, cs)
      else (some (if negative then -(digitsValue ds) else digitsValue ds),
        body.dropWhile Char.isDigit)
    else (none, cs)

/-- A number after its sign. -/
def readNumber (negative : Bool) (cs : List Char) : Option (Value × List Char) := do
  let (whole, cs) ← readWholePart cs
  let (fraction, cs) := readFraction cs
  let (exponent, cs) := readExponent cs
  if fraction.isEmpty && exponent.isNone then
    if digitLimit < whole.length then none
    else
      let n := digitsValue whole
      some (.int (if negative then -n else n), cs)
  else
    let n := digitsValue (whole ++ fraction)
    some (.float (.ofScientific ⟨negative, n, exponent.getD 0 - fraction.length⟩), cs)

/-- Removes a word from the start of a text. -/
def dropWord : List Char → List Char → Option (List Char)
  | [], cs => some cs
  | w :: ws, c :: cs => if w = c then dropWord ws cs else none
  | _ :: _, [] => none

/-- The words that are values. -/
def readWord (cs : List Char) : Option (Value × List Char) :=
  [("null", Value.null), ("true", .bool true), ("false", .bool false), ("NaN", .float .nan),
    ("Infinity", .float (.infinite false)), ("-Infinity", .float (.infinite true))].findSome?
    fun (word, v) => (dropWord word.toList cs).map (v, ·)

mutual
/-- A value at the start of a text, with no more than `depth` lists and mappings inside one another;
`fuel` bounds the number of values and separators. -/
def readValue : Nat → Nat → List Char → Option (Value × List Char)
  | 0, _, _ => none
  | fuel + 1, depth, cs =>
    match cs with
    | '"' :: cs => (readString cs).map fun (s, r) => (textOf s, r)
    | '[' :: cs =>
      match depth with
      | 0 => none
      | depth + 1 =>
        match skipSpace cs with
        | ']' :: r => some (.list [], r)
        | r => (readItems fuel depth r).map fun (xs, r) => (.list xs, r)
    | '\x7b' :: cs =>
      match depth with
      | 0 => none
      | depth + 1 =>
        match skipSpace cs with
        | '\x7d' :: r => some (.map [], r)
        | r => (readEntries fuel depth [] r).map fun (es, r) => (.map es, r)
    | cs =>
      match readWord cs with
      | some found => some found
      | none =>
        match cs with
        | '-' :: r => readNumber true r
        | r => readNumber false r

/-- The items of a list up to its closing bracket. -/
def readItems : Nat → Nat → List Char → Option (List Value × List Char)
  | 0, _, _ => none
  | fuel + 1, depth, cs =>
    match readValue fuel depth cs with
    | none => none
    | some (x, r) =>
      match skipSpace r with
      | ']' :: r => some ([x], r)
      | ',' :: r => (readItems fuel depth (skipSpace r)).map fun (xs, r) => (x :: xs, r)
      | _ => none

/-- The entries of a mapping up to its closing brace, added to those already read. -/
def readEntries : Nat → Nat → Entries → List Char → Option (Entries × List Char)
  | 0, _, _, _ => none
  | fuel + 1, depth, es, cs =>
    match cs with
    | '"' :: cs =>
      match readString cs with
      | none => none
      | some (k, r) =>
        match skipSpace r with
        | ':' :: r =>
          match readValue fuel depth (skipSpace r) with
          | none => none
          | some (x, r) =>
            let es := Entries.put es (String.ofList (k.map Point.shown)) x
            match skipSpace r with
            | '\x7d' :: r => some (es, r)
            | ',' :: r => readEntries fuel depth es (skipSpace r)
            | _ => none
        | _ => none
    | _ => none
end

/-- Reads a text that is one JSON value with nothing but blanks around it, in which at most `depth`
lists and mappings stand inside one another. -/
def readWithin (depth : Nat) (s : String) : Option Value :=
  let cs := s.toList
  match readValue (2 * cs.length + 2) depth (skipSpace cs) with
  | some (v, r) => if (skipSpace r).isEmpty then some v else none
  | none => none

/-- Reads a JSON text of any depth. -/
def read (s : String) : Option Value := readWithin s.length s

end TableAccess.Json
