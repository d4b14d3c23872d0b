import TableAccess.Text.Quoted

/-! Texts that are no line of characters. A text may hold half of a surrogate pair on its own, which
no character stands for: at each place is a character or such a half (`Point`), and a text with a half
in it is `Ragged`. In its written forms a half is an escape. -/

namespace TableAccess.Text

/-- What stands at one place of a text. -/
inductive Point where
  | char (c : Char)
  /-- Half of a surrogate pair, by its place after U+D800. -/
  | half (n : Fin 0x800)
  deriving DecidableEq, Repr

namespace Point

def isHalf : Point → Bool
  | .char _ => false
  | .half _ => true

/-- The character at a place; where a half stands on its own, U+FFFD is shown. -/
def shown : Point → Char
  | .char c => c
  | .half _ => '\ufffd'

/-- The escape of a half. -/
def escape (n : Fin 0x800) : List Char := '\\' :: 'u' :: hex 4 (0xD800 + n)

def literal (quote : Char) : Point → List Char
  | .char c => literalChar quote c
  | .half n => escape n

def json : Point → List Char
  | .char c => jsonChar c
  | .half n => escape n

end Point

/-- A text with half of a surrogate pair in it. -/
structure Ragged where
  points : List Point
  ragged : points.any Point.isHalf = true
  deriving DecidableEq, Repr

namespace Ragged

def single (n : Fin 0x800) : Ragged := ⟨[.half n], rfl⟩

theorem points_ne_nil (t : Ragged) : t.points ≠ [] := by
  intro h
  have hhalf := t.ragged
  rw [h] at hhalf
  contradiction

/-- The text as a line of characters, with U+FFFD for every half. -/
def shown (t : Ragged) : List Char := t.points.map Point.shown

def literal (t : Ragged) : List Char :=
  let quote := literalQuote t.shown
  quote :: t.points.flatMap (Point.literal quote) ++ [quote]

def json (t : Ragged) : List Char := '"' :: t.points.flatMap Point.json ++ ['"']

end Ragged

end TableAccess.Text
