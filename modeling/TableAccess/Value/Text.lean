import TableAccess.Value
import TableAccess.Number.Whole

/-! The text of a value. `toText` is the plain form, in which a text stands for itself; `literal`
is the form of a value inside a list or mapping, in which texts are quoted. `jsonText` is the JSON
form in ASCII; what JSON has no form for is written as a string holding its plain text. A value
that has yet to be read from a memory has no text. Every whole number has a text here, also one of
more than `Number.digitLimit` digits, where the library gives up. -/

namespace TableAccess.Value

open Number

def boolWord (b : Bool) : List Char := if b then "True".toList else "False".toList

/-- A fraction in lowest terms; a whole one is written without its denominator. -/
def fractionText (q : Rat) : List Char :=
  if q.den = 1 then wholeText q.num else wholeText q.num ++ '/' :: Nat.toDigits 10 q.den

def fractionLiteral (q : Rat) : List Char :=
  "Fraction(".toList ++ wholeText q.num ++ ',' :: ' ' :: Nat.toDigits 10 q.den ++ [')']

mutual
def literal : Value → List Char
  | .null => "None".toList
  | .bool b => boolWord b
  | .int n => wholeText n
  | .float x => x.toText
  | .decimal x => "Decimal('".toList ++ x.toText ++ ['\'', ')']
  | .fraction q => fractionLiteral q
  | .text s => Text.literal s.toList
  | .ragged t => t.literal
  | .bytes bs => Text.bytesLiteral bs
  | .date d => d.toLiteral
  | .time c => c.toLiteral
  | .moment m => m.toLiteral
  | .list xs => '[' :: literals xs ++ [']']
  | .tuple [x] => '(' :: literal x ++ [',', ')']
  | .tuple xs => '(' :: literals xs ++ [')']
  | .map es => '\x7b' :: literalEntries es ++ ['\x7d']
  | .json v => literal v
  | .object o => o.text.toList
  | .reference _ => []

def literals : List Value → List Char
  | [] => []
  | [x] => literal x
  | x :: xs => literal x ++ ',' :: ' ' :: literals xs

def literalEntries : List (String × Value) → List Char
  | [] => []
  | [(k, x)] => Text.literal k.toList ++ ':' :: ' ' :: literal x
  | (k, x) :: es =>
    Text.literal k.toList ++ ':' :: ' ' :: literal x ++ ',' :: ' ' :: literalEntries es
end

/-- The plain form; a half of a surrogate pair in a text is shown as U+FFFD. -/
def chars : Value → List Char
  | .text s => s.toList
  | .ragged t => t.shown
  | .decimal x => x.toText
  | .fraction q => fractionText q
  | .date d => d.toText
  | .time c => c.toText
  | .moment m => m.toText ' '
  | v => v.literal

def toText (v : Value) : String := String.ofList v.chars

def toLiteral (v : Value) : String := String.ofList v.literal

/-- The plain form as a value, in which a text keeps the halves it has. -/
def asText : Value → Value
  | .ragged t => .ragged t
  | v => .text v.toText

/-- The separators of a JSON text. -/
structure JsonStyle where
  item : List Char
  entry : List Char

namespace JsonStyle

def compact : JsonStyle := ⟨[','], [':']⟩

def spaced : JsonStyle := ⟨[',', ' '], [':', ' ']⟩

end JsonStyle

def jsonFloat : Binary → List Char
  | .nan => "NaN".toList
  | .infinite negative => if negative then "-Infinity".toList else "Infinity".toList
  | x => x.toText

mutual
def jsonText (style : JsonStyle) : Value → List Char
  | .null => "null".toList
  | .bool b => if b then "true".toList else "false".toList
  | .int n => wholeText n
  | .float x => jsonFloat x
  | .text s => Text.jsonString s.toList
  | .ragged t => t.json
  | .list xs => '[' :: jsonItems style xs ++ [']']
  | .tuple xs => '[' :: jsonItems style xs ++ [']']
  | .map es => '\x7b' :: jsonEntries style es ++ ['\x7d']
  | .decimal x => Text.jsonString (chars (.decimal x))
  | .fraction q => Text.jsonString (chars (.fraction q))
  | .bytes bs => Text.jsonString (chars (.bytes bs))
  | .date d => Text.jsonString (chars (.date d))
  | .time c => Text.jsonString (chars (.time c))
  | .moment m => Text.jsonString (chars (.moment m))
  | .json v => Text.jsonString (chars (.json v))
  | .object o => Text.jsonString o.text.toList
  | .reference _ => []

def jsonItems (style : JsonStyle) : List Value → List Char
  | [] => []
  | [x] => jsonText style x
  | x :: xs => jsonText style x ++ style.item ++ jsonItems style xs

def jsonEntries (style : JsonStyle) : List (String × Value) → List Char
  | [] => []
  | [(k, x)] => Text.jsonString k.toList ++ style.entry ++ jsonText style x
  | (k, x) :: es =>
    Text.jsonString k.toList ++ style.entry ++ jsonText style x ++ style.item ++
      jsonEntries style es
end

def toJson (v : Value) : List Char := v.jsonText .compact

mutual
/-- Values that JSON has a form for, all through. -/
def isDocument : Value → Bool
  | .null | .bool _ | .int _ | .float _ | .text _ | .ragged _ => true
  | .list xs => areDocuments xs
  | .tuple xs => areDocuments xs
  | .map es => areDocumentEntries es
  | _ => false

def areDocuments : List Value → Bool
  | [] => true
  | x :: xs => isDocument x && areDocuments xs

def areDocumentEntries : List (String × Value) → Bool
  | [] => true
  | (_, x) :: es => isDocument x && areDocumentEntries es
end

end TableAccess.Value
