import TableAccess.Text.Printable

/-! Written forms of a text between quotes. `literal` is the form shown inside lists and mappings:
single quotes unless only those occur in the text, escapes for controls and for characters that
are not printable. `jsonString` is a JSON string in ASCII, with surrogate pairs above U+FFFF.
`sqlString` is an SQL string constant, in which a quote is written twice. -/

namespace TableAccess.Text

/-- The last `width` hexadecimal digits of `n`, in small letters. -/
def hex : Nat → Nat → List Char
  | 0, _ => []
  | width + 1, n => hex width (n / 16) ++ [Nat.digitChar (n % 16)]

/-- One character of a literal between the quotes `quote`. -/
def literalChar (quote c : Char) : List Char :=
  if c = quote ∨ c = '\\' then ['\\', c]
  else if c = '\n' then ['\\', 'n']
  else if c = '\r' then ['\\', 'r']
  else if c = '\t' then ['\\', 't']
  else if isPrintable c then [c]
  else if c.toNat < 0x100 then '\\' :: 'x' :: hex 2 c.toNat
  else if c.toNat < 0x10000 then '\\' :: 'u' :: hex 4 c.toNat
  else '\\' :: 'U' :: hex 8 c.toNat

/-- The quote that a literal of this text uses. -/
def literalQuote (cs : List Char) : Char :=
  if cs.contains '\'' && !cs.contains '"' then '"' else '\''

def literal (cs : List Char) : List Char :=
  let quote := literalQuote cs
  quote :: cs.flatMap (literalChar quote) ++ [quote]

/-- Bytes as a literal: ASCII characters stand for themselves, all others are escaped. -/
def bytesLiteral (bytes : List UInt8) : List Char :=
  let cs := bytes.map fun b => Char.ofNat b.toNat
  let quote := literalQuote cs
  let escape (c : Char) : List Char :=
    if c.toNat < 0x7F then literalChar quote c else '\\' :: 'x' :: hex 2 c.toNat
  'b' :: quote :: cs.flatMap escape ++ [quote]

/-- One character of a JSON string. -/
def jsonChar (c : Char) : List Char :=
  if c = '"' ∨ c = '\\' then ['\\', c]
  else if c = '\n' then ['\\', 'n']
  else if c = '\r' then ['\\', 'r']
  else if c = '\t' then ['\\', 't']
  else if c = '\x08' then ['\\', 'b']
  else if c = '\x0c' then ['\\', 'f']
  else if 0x20 ≤ c.toNat ∧ c.toNat < 0x7F then [c]
  else if c.toNat < 0x10000 then '\\' :: 'u' :: hex 4 c.toNat
  else
    let pair := c.toNat - 0x10000
    '\\' :: 'u' :: hex 4 (0xD800 + pair / 0x400) ++
      '\\' :: 'u' :: hex 4 (0xDC00 + pair % 0x400)

def jsonString (cs : List Char) : List Char := '"' :: cs.flatMap jsonChar ++ ['"']

/-- Writes `quote` twice wherever it occurs. -/
def double (quote : Char) (cs : List Char) : List Char :=
  cs.flatMap fun c => if c = quote then [quote, quote] else [c]

def sqlString (cs : List Char) : List Char := '\'' :: double '\'' cs ++ ['\'']

/-- A quoted SQL name. -/
def sqlName (cs : List Char) : List Char := '"' :: double '"' cs ++ ['"']

theorem count_double (quote x : Char) (cs : List Char) :
    (double quote cs).count x = (if x = quote then 2 else 1) * cs.count x := by
  induction cs with
  | nil => simp [double]
  | cons c cs ih =>
    unfold double at ih ⊢
    rw [List.flatMap_cons, List.count_append, ih]
    by_cases hc : c = quote <;> by_cases hx : x = c <;> grind

end TableAccess.Text
