import TableAccess.Proofs.Predicate.Meaning

/-! Conditions taken apart into pieces. Both forms of a condition, with values in the text and with bound
values, are lines of comparisons; in either a comparison names its field or is decided without it.
The written form is taken apart as the bound one is, with its names bare in the text
(`bareText_wherePieces`), and both have the same names in the same order (`names_wherePieces`,
`names_bound`). -/

namespace TableAccess

namespace Fragment

/-- The parts of a name. -/
def name? : Fragment → Option (List String)
  | .name parts => some parts
  | _ => none

/-- The names in a statement, in order. -/
def names (fs : List Fragment) : List (List String) := fs.filterMap name?

/-- The text of a piece whose names are not quoted. -/
def bareChars : Fragment → List Char
  | .name parts => Text.join ['.'] (parts.map String.toList)
  | f => f.chars

def bareText (fs : List Fragment) : String := String.ofList (fs.flatMap bareChars)

@[simp] theorem bareChars_words (s : String) : bareChars (.words s) = s.toList := rfl

@[simp] theorem bareChars_field (f : String) : bareChars (field f) = f.toList := by
  simp only [field, bareChars, List.map_map, Function.comp_def, String.toList_ofList, List.map_id']
  exact Text.join_split '.' f.toList

@[simp] theorem names_append (fs gs : List Fragment) : names (fs ++ gs) = names fs ++ names gs :=
  List.filterMap_append

end Fragment

namespace Comparison

/-- A field, an operator, and a value in the text. -/
def beside (c : Comparison) (operator : String) (value : List Char) : List Fragment :=
  [.field c.field, .words operator, .words (String.ofList value)]

def membershipPieces (c : Comparison) (negated : Bool) : List Fragment :=
  if c.value.isEmptySequence then [.words (if negated then "TRUE" else "FALSE")]
  else c.beside (if negated then " NOT IN " else " IN ") c.value.members

def foldedPieces (c : Comparison) (operator : String) : List Fragment :=
  [.words "LOWER(", .field c.field, .words ") ", .words operator, .words " LOWER(",
    .words (String.ofList c.value.constant), .words ")"]

/-- The written comparison, with its field apart from the rest. -/
def pieces (c : Comparison) : List Fragment :=
  match c.operator with
  | .gt => c.beside " > " c.value.bare
  | .lt => c.beside " < " c.value.bare
  | .lte => c.beside " <= " c.value.bare
  | .gte => c.beside " >= " c.value.bare
  | .notIn => c.membershipPieces true
  | .isNot => c.beside " NOT " c.value.toJson
  | .isIn => c.membershipPieces false
  | .like => c.beside " LIKE " c.value.constant
  | .notLike => c.beside " NOT LIKE " c.value.constant
  | .ilike => c.foldedPieces "LIKE"
  | .notIlike => c.foldedPieces "NOT LIKE"
  | .similarTo => c.beside " SIMILAR TO " c.value.constant
  | .notSimilarTo => c.beside " NOT SIMILAR TO " c.value.constant
  | .eq => if c.value.isNull then [.field c.field, .words " IS NULL"] else c.beside " = " c.value.constant

variable (c : Comparison)

@[simp] theorem bareChars_beside (operator : String) (value : List Char) :
    (c.beside operator value).flatMap Fragment.bareChars =
      c.field.toList ++ operator.toList ++ value := by
  simp [beside]

theorem bareChars_membership (negated : Bool) :
    (c.membershipPieces negated).flatMap Fragment.bareChars =
      membership negated c.field.toList c.value := by
  unfold membershipPieces membership
  split <;> simp

theorem bareChars_folded (operator : String) :
    (c.foldedPieces operator).flatMap Fragment.bareChars =
      folded c.field.toList operator c.value := by
  have hclosing : ")".toList = [')'] := rfl
  unfold foldedPieces folded
  simp only [List.flatMap_cons, List.flatMap_nil, Fragment.bareChars_words,
    Fragment.bareChars_field, String.toList_ofList, List.append_assoc, List.append_nil, hclosing]

theorem bareChars_pieces : c.pieces.flatMap Fragment.bareChars = c.written := by
  unfold pieces written
  cases c.operator
  case notIn | isIn => exact c.bareChars_membership _
  case ilike => exact c.bareChars_folded "LIKE"
  case notIlike => exact c.bareChars_folded "NOT LIKE"
  case eq =>
    dsimp only
    split <;> simp
  all_goals simp

theorem names_membership (negated : Bool) :
    Fragment.names (c.membershipPieces negated) = Fragment.names (c.boundMembership negated) := by
  unfold membershipPieces boundMembership Value.isEmptySequence
  cases c.value.items? with
  | none => rfl
  | some xs => cases xs <;> rfl

/-- The two forms of a comparison name the same field, or neither names it. -/
theorem names_pieces : Fragment.names c.pieces = Fragment.names c.bound := by
  unfold pieces bound
  cases c.operator
  case notIn | isIn => exact c.names_membership _
  case eq =>
    dsimp only
    cases c.value <;> rfl
  all_goals rfl

end Comparison

namespace Token

variable {α : Type}

def leaf? : Token α → Option α
  | .leaf a => some a
  | _ => none

/-- The leaves of a line of words, in order. -/
def leaves (line : List (Token α)) : List α := line.filterMap leaf?

@[simp] theorem leaves_append (xs ys : List (Token α)) : leaves (xs ++ ys) = leaves xs ++ leaves ys :=
  List.filterMap_append

@[simp] theorem leaves_enclosed (line : List (Token α)) : leaves (enclosed line) = leaves line := by
  show leaves (line ++ [.closing]) = leaves line
  rw [leaves_append]
  exact List.append_nil _

theorem leaves_joined {connective : Token α} (h : connective.leaf? = none)
    (parts : List (List (Token α))) : leaves (joined connective parts) = parts.flatMap leaves := by
  match parts with
  | [] => rfl
  | [part] => simp [joined]
  | part :: next :: rest =>
    have ih := leaves_joined h (next :: rest)
    have hc : leaves (connective :: joined connective (next :: rest)) =
        leaves (joined connective (next :: rest)) := by
      rw [leaves, List.filterMap_cons_none h, leaves]
    have hj : joined connective (part :: next :: rest) =
        part ++ connective :: joined connective (next :: rest) := rfl
    rw [hj, leaves_append, hc, ih]
    rfl

theorem flatMap_leaves_present (parts : List (List (Token α))) :
    (present parts).flatMap leaves = parts.flatMap leaves := by
  induction parts with
  | nil => rfl
  | cons part parts ih =>
    cases part with
    | nil => simpa [present, leaves] using ih
    | cons t part => simpa [present] using ih

theorem leaves_beside (xs ys : List (Token α)) : leaves (beside xs ys) = leaves xs ++ leaves ys := by
  unfold beside
  split
  next h => simp [List.isEmpty_iff.mp h, leaves]
  next =>
    split
    next h => simp [List.isEmpty_iff.mp h, leaves]
    next =>
      have hc : leaves (.and :: enclosed ys) = leaves ys := by
        rw [leaves, List.filterMap_cons_none rfl, ← leaves, leaves_enclosed]
      rw [leaves_append, hc]

end Token

namespace Condition

open Token (leaves_joined leaves_beside flatMap_leaves_present)

mutual
/-- The comparisons of a condition, those of a mapping before those of its alternatives. -/
def comparisons : Condition → List Comparison
  | .node own alternatives => own.map .ofEntry ++ comparisonsAll alternatives

def comparisonsAll : List Condition → List Comparison
  | [] => []
  | c :: cs => comparisons c ++ comparisonsAll cs
end

theorem flatMap_leaves (own : Entries) : (leaves own).flatMap Token.leaves = own.map .ofEntry := by
  induction own with
  | nil => rfl
  | cons e own ih => simpa [leaves, Token.leaves, Token.leaf?] using ih

mutual
theorem leaves_written : (c : Condition) → Token.leaves c.written = c.comparisons
  | .node own alternatives => by
    rw [written, comparisons, leaves_beside, leaves_joined rfl, leaves_joined rfl, flatMap_leaves,
      flatMap_leaves_present, leaves_writtenAll alternatives]

theorem leaves_writtenAll :
    (cs : List Condition) → (writtenAll cs).flatMap Token.leaves = comparisonsAll cs
  | [] => rfl
  | c :: cs => by
    rw [writtenAll, comparisonsAll, List.flatMap_cons, leaves_written c, leaves_writtenAll cs]
end

mutual
theorem leaves_bound : (c : Condition) → Token.leaves c.bound = c.comparisons
  | .node own alternatives => by
    have hmembers : ∀ parts : List (List (Token Comparison)),
        (parts.map Token.enclosed).flatMap Token.leaves = parts.flatMap Token.leaves := by
      intro parts
      simp [List.flatMap_map]
    have hpresent := flatMap_leaves_present (boundAll alternatives)
    rw [leaves_boundAll alternatives] at hpresent
    rw [bound, comparisons, leaves_joined rfl, List.flatMap_append, flatMap_leaves, ← hpresent]
    split
    next h => rw [List.isEmpty_iff.mp h]
    next =>
      rw [List.flatMap_singleton, Token.leaves_enclosed, leaves_joined rfl, hmembers]

theorem leaves_boundAll :
    (cs : List Condition) → (boundAll cs).flatMap Token.leaves = comparisonsAll cs
  | [] => rfl
  | c :: cs => by
    rw [boundAll, comparisonsAll, List.flatMap_cons, leaves_bound c, leaves_boundAll cs]
end

end Condition

namespace Fragment

/-- The comparisons in a line have their names where the line has its leaves. -/
theorem names_leaves (pieces : Comparison → List Fragment) (line : List (Token Comparison)) :
    names (line.flatMap (Token.fragments pieces)) =
      (Token.leaves line).flatMap fun c => names (pieces c) := by
  induction line with
  | nil => rfl
  | cons t line ih =>
    rw [List.flatMap_cons, names_append, ih]
    cases t <;> rfl

end Fragment

namespace Condition

open Fragment (names bareText)

/-- The clause of a condition, with its names apart from the rest. -/
def wherePieces (c : Condition) : List Fragment :=
  if c.written.isEmpty then []
  else .words " WHERE " :: c.written.flatMap (Token.fragments Comparison.pieces)

/-- The names of the columns that a condition compares. -/
def columns (c : Condition) : List (List String) :=
  c.comparisons.flatMap fun comparison => names comparison.pieces

theorem bareChars_line (line : List (Token Comparison)) :
    (line.flatMap (Token.fragments Comparison.pieces)).flatMap Fragment.bareChars =
      line.flatMap (Token.chars Comparison.written) := by
  induction line with
  | nil => rfl
  | cons t line ih =>
    have ht : (Token.fragments Comparison.pieces t).flatMap Fragment.bareChars =
        Token.chars Comparison.written t := by
      cases t
      case leaf c => exact c.bareChars_pieces
      all_goals rfl
    rw [List.flatMap_cons, List.flatMap_append, ht, ih, List.flatMap_cons]

theorem bareText_wherePieces (c : Condition) : bareText c.wherePieces = c.clause := by
  unfold wherePieces clause
  by_cases h : c.written = []
  · simp [h, text_eq_empty_iff.mpr h, bareText]
  · have ht : ¬ c.text.isEmpty = true := by
      simpa [String.isEmpty_iff] using fun he => h (text_eq_empty_iff.mp he)
    rw [if_neg ht, if_neg (by simpa using h), bareText, List.flatMap_cons, bareChars_line,
      String.ofList_append, text]
    rfl

theorem names_wherePieces (c : Condition) : names c.wherePieces = c.columns := by
  have hline : names (c.written.flatMap (Token.fragments Comparison.pieces)) = c.columns := by
    rw [Fragment.names_leaves, leaves_written, columns]
  unfold wherePieces
  split
  next h =>
    rw [List.isEmpty_iff.mp h] at hline
    exact hline
  next => exact hline

theorem names_bound (c : Condition) :
    names (c.bound.flatMap (Token.fragments Comparison.bound)) = c.columns := by
  rw [Fragment.names_leaves, leaves_bound, columns]
  simp only [Comparison.names_pieces]

end Condition

end TableAccess
