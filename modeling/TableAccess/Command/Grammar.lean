import TableAccess.Value
import TableAccess.Text.Alphabet
import TableAccess.Text.Split

/-! Command line arguments. A grammar has options and positional parameters. A word is an option if
it starts with a dash and names one, in full or by an unambiguous beginning of a long name; short
options can be joined, with or without an equals sign behind the first, and a value can follow its
option in the same word. After `--` every word is an argument. `Grammar.parse` gives the options in
the order of their words, the positional arguments, and the words that nothing takes. -/

namespace TableAccess.Command

/-- An option by all of its names, and whether it takes a value. -/
structure Flag where
  names : List String
  valued : Bool
  deriving DecidableEq, Repr

/-- How many words a positional parameter takes. -/
inductive Arity where
  | one
  | oneOrMore
  /-- Every word from here on, options too. -/
  | rest
  deriving DecidableEq, Repr

structure Grammar where
  flags : List Flag
  positionals : List Arity

/-- Why parsing ends early: help was asked for, or the words do not fit. -/
inductive Stop where
  | help
  | misuse
  deriving DecidableEq, Repr

/-- The part that a word plays. -/
inductive Role where
  | argument
  | separator
  /-- An option, the name that it was recognised by, and what follows it in the same word, less an
  equals sign between the two. -/
  | option (flag : Flag) (name : String) (attached? : Option (List Char))
  | unknownOption
  deriving Repr

structure Word where
  text : String
  role : Role

namespace Word

def isOption (w : Word) : Bool :=
  match w.role with
  | .option .. | .unknownOption => true
  | _ => false

def isArgument (w : Word) : Bool := w.role matches .argument

def isSeparator (w : Word) : Bool := w.role matches .separator

end Word

/-- What was given: values of options by the first name of the option, words of positional
parameters in order, and the words left over. -/
structure Parsed where
  options : List (String × Value)
  positionals : List (List String)
  leftover : List String

def helpFlag : Flag := ⟨["-h", "--help"], false⟩

def separator : String := "--"

namespace Grammar

/-- Every name with its option, in the order in which the options are listed. -/
def names (g : Grammar) : List (String × Flag) :=
  g.flags.flatMap fun f => f.names.map fun n => (n, f)

def lookup? (g : Grammar) (name : String) : Option Flag :=
  (g.names.find? fun e => e.1 == name).map (·.2)

/-- Numbers below zero, which look like options and are none. -/
def isNegativeNumber (cs : List Char) : Bool :=
  let isDigit (c : Char) : Bool := (Text.decimalDigit? c).isSome
  match if cs.getLast? = some '\n' then cs.dropLast else cs with
  | '-' :: body =>
    match Text.cut '.' body with
    | (whole, none) => !whole.isEmpty && whole.all isDigit
    | (whole, some fraction) =>
      whole.all isDigit && !fraction.isEmpty && fraction.all isDigit
  | _ => false

/-- The options that a word may mean by the beginning of a name. -/
def candidates (g : Grammar) (cs : List Char) : List Role :=
  match cs with
  | '-' :: '-' :: _ =>
    let (start, attached?) := Text.cut '=' cs
    (g.names.filter fun e => start.isPrefixOf e.1.toList).map fun e =>
      .option e.2 e.1 attached?
  | _ =>
    (g.names.filter fun e => e.1.toList = cs.take 2).map fun e =>
      .option e.2 e.1 (some (cs.drop 2))

/-- The option before an equals sign, with what follows the sign as its value. -/
def assigned? (g : Grammar) (cs : List Char) : Option Role :=
  match Text.cut '=' cs with
  | (_, none) => none
  | (name, some value) =>
    (g.lookup? (String.ofList name)).map fun f => .option f (String.ofList name) (some value)

def roleOf (g : Grammar) (s : String) : Except Stop Role :=
  let cs := s.toList
  if cs.head? ≠ some '-' then .ok .argument
  else match g.lookup? s with
    | some f => .ok (.option f s none)
    | none =>
      if cs.length = 1 then .ok .argument
      else match g.assigned? cs with
        | some role => .ok role
        | none =>
          match g.candidates cs with
          | [role] => .ok role
          | _ :: _ => .error .misuse
          | [] =>
            if isNegativeNumber cs || cs.contains ' ' then .ok .argument else .ok .unknownOption

def classify (g : Grammar) : List String → Except Stop (List Word)
  | [] => .ok []
  | s :: rest =>
    if s = separator then .ok (⟨s, .separator⟩ :: rest.map fun t => ⟨t, .argument⟩)
    else do return ⟨s, ← g.roleOf s⟩ :: (← g.classify rest)

/-! ### Positional parameters -/

/-- The words that a parameter takes from the front, if it can be filled. -/
def take (a : Arity) (ws : List Word) : Option (List Word) :=
  let lead := ws.takeWhile Word.isSeparator
  match ws.drop lead.length with
  | [] => none
  | w :: rest =>
    if !w.isArgument then none
    else some (lead ++ w :: match a with
      | .one => rest.takeWhile Word.isSeparator
      | .oneOrMore => rest.takeWhile fun w => w.isArgument || w.isSeparator
      | .rest => rest)

/-- The texts of words; the first separator among them says nothing. -/
def texts (a : Arity) (ws : List Word) : List String :=
  let all := ws.map (·.text)
  match a with
  | .rest => all
  | _ => all.erase separator

/-- Fills as many parameters as the words in front allow: their texts, the parameters left, and the
number of words taken. -/
def fill : List Arity → List Word → List (List String) × List Arity × Nat
  | [], _ => ([], [], 0)
  | a :: arities, ws =>
    match take a ws with
    | none => ([], a :: arities, 0)
    | some taken =>
      let (more, left, n) := fill arities (ws.drop taken.length)
      (texts a taken :: more, left, taken.length + n)

/-! ### Options -/

/-- What one word gives: options with their values, and the words after the last value. -/
structure Given where
  options : List (String × Value)
  words : List Word

def Given.also (option : String × Value) (given : Given) : Given :=
  { given with options := option :: given.options }

def firstName (f : Flag) : String := f.names.headD ""

/-- A word for something that takes one; nothing is left of a lone separator. -/
def single (words : List String) : Value :=
  match words with
  | [s] => .text s
  | words => .list (words.map .text)

/-- An option with nothing attached, which takes its value from the next word. -/
def settleAlone (f : Flag) (ws : List Word) : Except Stop Given :=
  if !f.valued then .ok ⟨[(firstName f, .null)], ws⟩
  else match ws with
    | w :: rest =>
      if w.isArgument then .ok ⟨[(firstName f, .text w.text)], rest⟩ else .error .misuse
    | [] => .error .misuse

/-- An option with something attached: its value or, after a short option that takes none, more
short options. -/
def settleAttached (g : Grammar) (ws : List Word) (f : Flag) (short : Bool) :
    List Char → Except Stop Given
  | [] => if f.valued then .ok ⟨[(firstName f, .text "")], ws⟩ else .error .misuse
  | c :: more =>
    if f.valued then
      .ok ⟨[(firstName f, single ([String.ofList (c :: more)].erase separator))], ws⟩
    else if !short then .error .misuse
    else match g.lookup? (String.ofList ['-', c]) with
      | none => .error .misuse
      | some next =>
        (if more.isEmpty then settleAlone next ws else g.settleAttached ws next true more).map
          (.also (firstName f, .null))

def settle (g : Grammar) (ws : List Word) (f : Flag) (name : String) :
    Option (List Char) → Except Stop Given
  | none => settleAlone f ws
  | some attached => g.settleAttached ws f ((name.toList.drop 1).head? != some '-') attached

/-- Help ends the parsing as soon as its turn comes. -/
def accept (given : Given) (p : Parsed) : Except Stop Parsed :=
  if given.options.any fun e => helpFlag.names.contains e.1 then .error .help
  else .ok { p with options := p.options ++ given.options }

/-- Takes the words one group after the other: positional parameters as far as they can be filled,
then the next option. -/
def walk (g : Grammar) : Nat → List Arity → List Word → Parsed → Except Stop (List Arity × Parsed)
  | 0, arities, _, p => .ok (arities, p)
  | fuel + 1, arities, ws, p =>
    let before := ws.takeWhile fun w => !w.isOption
    let (filled, left, n) := if before.isEmpty then ([], arities, 0) else fill arities ws
    let p := { p with positionals := p.positionals ++ filled }
    if 0 < n then g.walk fuel left (ws.drop n) p
    else
      let p := { p with leftover := p.leftover ++ before.map (·.text) }
      match ws.drop before.length with
      | [] => .ok (arities, p)
      | w :: rest =>
        match w.role with
        | .option f name attached? => do
          let given ← g.settle rest f name attached?
          g.walk fuel arities given.words (← accept given p)
        | _ => g.walk fuel arities rest { p with leftover := p.leftover ++ [w.text] }

/-- Parses the words; a required parameter that is not filled is misuse. -/
def parse (g : Grammar) (required : Bool) (argv : List String) : Except Stop Parsed := do
  let ws ← g.classify argv
  let (left, p) ← g.walk (2 * ws.length + 2) g.positionals ws ⟨[], [], []⟩
  if required && !left.isEmpty then throw .misuse
  return p

end Grammar

end TableAccess.Command
