import TableAccess.Condition

/-! Predicates: a condition laid out as a line of leaves, connectives and parentheses. The same
leaves are laid out in two ways. Where values are written into the text, a disjunction gets
parentheses only beside comparisons of its own level; where values are bound, every alternative
and every disjunction has them. AND binds tighter than OR. -/

namespace TableAccess

/-- A word of a predicate. -/
inductive Token (α : Type) where
  | leaf (a : α)
  | and
  | or
  | opening
  | closing
  deriving Repr

namespace Token

variable {α : Type}

/-- Parts with one connective between neighbours. -/
def joined (connective : Token α) : List (List (Token α)) → List (Token α)
  | [] => []
  | [part] => part
  | part :: parts => part ++ connective :: joined connective parts

def present (parts : List (List (Token α))) : List (List (Token α)) :=
  parts.filter fun p => !p.isEmpty

def enclosed (part : List (Token α)) : List (Token α) := .opening :: part ++ [.closing]

/-- A conjunction beside a disjunction, parentheses only where both are there. -/
def beside (conjunction disjunction : List (Token α)) : List (Token α) :=
  if conjunction.isEmpty then disjunction
  else if disjunction.isEmpty then conjunction
  else conjunction ++ .and :: enclosed disjunction

/-- The text of a line of words, given the text of its leaves. -/
def chars (leafText : α → List Char) : Token α → List Char
  | .leaf a => leafText a
  | .and => " AND ".toList
  | .or => " OR ".toList
  | .opening => ['(']
  | .closing => [')']

/-- The pieces of a word, given the pieces of a leaf. -/
def fragments (leafFragments : α → List Fragment) : Token α → List Fragment
  | .leaf a => leafFragments a
  | .and => [.words " AND "]
  | .or => [.words " OR "]
  | .opening => [.words "("]
  | .closing => [.words ")"]

end Token

namespace Condition

def leaves (own : Entries) : List (List (Token Comparison)) :=
  own.map fun e => [.leaf (Comparison.ofEntry e)]

mutual
/-- The layout with values in the text. -/
def written : Condition → List (Token Comparison)
  | .node own alternatives =>
    Token.beside (Token.joined .and (leaves own))
      (Token.joined .or (Token.present (writtenAll alternatives)))

def writtenAll : List Condition → List (List (Token Comparison))
  | [] => []
  | c :: cs => written c :: writtenAll cs
end

mutual
/-- The layout with bound values. -/
def bound : Condition → List (Token Comparison)
  | .node own alternatives =>
    let members := Token.present (boundAll alternatives)
    let disjunction :=
      if members.isEmpty then []
      else [Token.enclosed (Token.joined .or (members.map Token.enclosed))]
    Token.joined .and (leaves own ++ disjunction)

def boundAll : List Condition → List (List (Token Comparison))
  | [] => []
  | c :: cs => bound c :: boundAll cs
end

mutual
/-- The values that are sent with the bound layout: those of a level before those of its
alternatives. An alternative that asks for nothing is passed over. -/
def parameters : Condition → List Value
  | .node own alternatives =>
    own.flatMap (fun e => (Comparison.ofEntry e).parameters) ++ parametersAll alternatives

def parametersAll : List Condition → List Value
  | [] => []
  | c :: cs => if c.bound.isEmpty then parametersAll cs else c.parameters ++ parametersAll cs
end

/-- The predicate with its values written in; empty if nothing is asked. -/
def text (c : Condition) : String :=
  String.ofList (c.written.flatMap (Token.chars Comparison.written))

/-- The predicate with markers for its values; none if nothing is asked. -/
def boundFragments? (c : Condition) : Option (List Fragment) :=
  let tokens := c.bound
  if tokens.isEmpty then none else some (tokens.flatMap (Token.fragments Comparison.bound))

/-- The written comparisons of a mapping's own level. -/
def ownTexts (entries : Entries) : List String :=
  (entries.filter fun e => e.1 != orKey).map fun e => String.ofList (Comparison.ofEntry e).written

/-- The written predicate behind its keyword. -/
def clause (c : Condition) : String :=
  let predicate := c.text
  if predicate.isEmpty then "" else " WHERE " ++ predicate

end Condition

end TableAccess
