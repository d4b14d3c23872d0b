import TableAccess.Text.Blank
import TableAccess.Text.Alphabet

/-! Suffixes of condition keys. A suffix is one or more words at the end of a key, in any case,
with blanks between them. `field?` removes it from a key: the key is read from its end, a final
line feed not counting, and what stands before the suffix decides whether the suffix is accepted. -/

namespace TableAccess

open Text

/-- What stands between the start of a key and its suffix. -/
inductive Lead where
  /-- Any text, then a run of blanks. -/
  | text
  /-- A field without blanks, then one space. -/
  | wordSpace
  /-- A field without blanks, then a run of blanks. -/
  | wordBlanks
  deriving DecidableEq, Repr

structure Suffix where
  lead : Lead
  words : List String
  deriving DecidableEq, Repr

namespace Suffix

/-- Removes a word from the start of a text, ignoring case. -/
def dropWord : List Char → List Char → Option (List Char)
  | [], cs => some cs
  | w :: ws, c :: cs => if sameLetter w c then dropWord ws cs else none
  | _ :: _, [] => none

/-- Removes words from the start of a text, with at least one blank between neighbours. -/
def dropWords : List (List Char) → List Char → Option (List Char)
  | [], cs => some cs
  | [w], cs => dropWord w cs
  | w :: ws, cs =>
    match dropWord w cs with
    | some (c :: rest) => if isBlank c then dropWords ws (rest.dropWhile isBlank) else none
    | _ => none

/-- The words as they are met when a key is read from its end. -/
def backward (s : Suffix) : List (List Char) :=
  s.words.reverse.map fun w => w.toList.reverse

def dropFinalNewline : List Char → List Char
  | '\n' :: cs => cs
  | cs => cs

def isWord (cs : List Char) : Bool := !cs.isEmpty && cs.all fun c => !isBlank c

/-- The field before a suffix, from the reversed text that precedes the suffix. -/
def Lead.field? : Lead → List Char → Option (List Char)
  | .text, c :: cs => if isBlank c then some (trim cs.reverse) else none
  | .wordSpace, c :: cs => if c = ' ' ∧ isWord cs then some cs.reverse else none
  | .wordBlanks, c :: cs =>
    let word := cs.dropWhile isBlank
    if isBlank c ∧ isWord word then some word.reverse else none
  | _, [] => none

/-- The field of a key that ends in this suffix. -/
def field? (s : Suffix) (key : List Char) : Option (List Char) :=
  (dropWords s.backward (dropFinalNewline key.reverse)).bind (Lead.field? s.lead)

end Suffix

end TableAccess
