/-! Letters without case and digits of every script. A keyword of ASCII letters is recognised in any
case, and four further characters count as letters of the alphabet: U+212A as k, U+017F as s, U+0131
and U+0130 as i. Two narrower maps serve the places where a whole text is folded before it is
compared with ASCII words; characters whose folded form has no ASCII letter are left as they are. A
decimal digit has a place in a run of ten code points that starts at the zero of its script; a digit
in the wider sense (superscripts, circled figures) has a value but does not build numbers. -/

namespace TableAccess.Text

/-- The small letter that a character stands for when case is ignored. -/
def foldLetter (c : Char) : Char :=
  if c = '\u212a' then 'k' else if c = '\u017f' then 's'
  else if c = '\u0131' ∨ c = '\u0130' then 'i' else c.toLower

def sameLetter (a b : Char) : Bool := foldLetter a == foldLetter b

/-- Small letters: ASCII capitals and the Kelvin sign. -/
def smallLetter (c : Char) : Char := if c = '\u212a' then 'k' else c.toLower

/-- Capital letters: ASCII letters, the dotless i and the long s. -/
def capitalLetter (c : Char) : Char :=
  if c = '\u0131' then 'I' else if c = '\u017f' then 'S' else c.toUpper

def lower (s : String) : String := s.map smallLetter

def upper (s : String) : String := s.map capitalLetter

/-! ### Digits -/

/-- The zeros of the decimal scripts. -/
def decimalZeros : List Nat :=
  [0x30, 0x660, 0x6F0, 0x7C0, 0x966, 0x9E6, 0xA66, 0xAE6, 0xB66, 0xBE6, 0xC66, 0xCE6, 0xD66,
   0xDE6, 0xE50, 0xED0, 0xF20, 0x1040, 0x1090, 0x17E0, 0x1810, 0x1946, 0x19D0, 0x1A80, 0x1A90,
   0x1B50, 0x1BB0, 0x1C40, 0x1C50, 0xA620, 0xA8D0, 0xA900, 0xA9D0, 0xA9F0, 0xAA50, 0xABF0,
   0xFF10, 0x104A0, 0x10D30, 0x11066, 0x110F0, 0x11136, 0x111D0, 0x112F0, 0x11450, 0x114D0,
   0x11650, 0x116C0, 0x11730, 0x118E0, 0x11950, 0x11C50, 0x11D50, 0x11DA0, 0x16A60, 0x16AC0,
   0x16B50, 0x1D7CE, 0x1D7D8, 0x1D7E2, 0x1D7EC, 0x1D7F6, 0x1E140, 0x1E2F0, 0x1E950, 0x1FBF0]

/-- The value of a decimal digit of any script. -/
def decimalDigit? (c : Char) : Option Nat :=
  if c.toNat < 0x660 then (if c.isDigit then some (c.toNat - 48) else none)
  else (decimalZeros.find? fun z => z ≤ c.toNat && c.toNat < z + 10).map (c.toNat - ·)

/-- The characters that are digits without being decimal digits. -/
def figureRanges : List (Nat × Nat) :=
  [(0xB2, 0xB3), (0xB9, 0xB9), (0x1369, 0x1371), (0x19DA, 0x19DA), (0x2070, 0x2070),
   (0x2074, 0x2079), (0x2080, 0x2089), (0x2460, 0x2468), (0x2474, 0x247C), (0x2488, 0x2490),
   (0x24EA, 0x24EA), (0x24F5, 0x24FD), (0x24FF, 0x24FF), (0x2776, 0x277E), (0x2780, 0x2788),
   (0x278A, 0x2792), (0x10A40, 0x10A43), (0x10E60, 0x10E68), (0x11052, 0x1105A),
   (0x1F100, 0x1F10A)]

def isFigure (c : Char) : Bool :=
  (decimalDigit? c).isSome || figureRanges.any fun (a, b) => a ≤ c.toNat && c.toNat ≤ b

end TableAccess.Text
