import TableAccess.Comparison
import TableAccess.Failure

/-! Condition mappings. A mapping asks for all of its own entries and, if the reserved key `or`
holds alternatives, for one of these as well; alternatives are mappings again. `ofEntries?` reads
a mapping and fails exactly when some `or` is neither null nor a sequence of mappings. -/

namespace TableAccess

inductive Condition where
  | node (own : Entries) (alternatives : List Condition)

namespace Condition

/-- The reserved key. -/
def orKey : String := "or"

mutual
def ofEntries? : List (String × Value) → Option Condition
  | [] => some (.node [] [])
  | (k, v) :: rest =>
    if k = orKey then
      match alternatives? v, ofEntries? rest with
      | some alternatives, some (.node own _) => some (.node own alternatives)
      | _, _ => none
    else
      match ofEntries? rest with
      | some (.node own alternatives) => some (.node ((k, v) :: own) alternatives)
      | none => none

def alternatives? : Value → Option (List Condition)
  | .null => some []
  | .list members => members? members
  | .tuple members => members? members
  | _ => none

def members? : List Value → Option (List Condition)
  | [] => some []
  | .map es :: rest =>
    match ofEntries? es, members? rest with
    | some c, some cs => some (c :: cs)
    | _, _ => none
  | _ :: _ => none
end

def ofEntries (entries : Entries) : Except Failure Condition :=
  match ofEntries? entries with
  | some c => .ok c
  | none => .error (.invalidFormat orKey)

/-- What a caller passes: nothing at all, or a mapping. -/
def ofValue (v : Value) : Except Failure Condition :=
  match v with
  | .map es => ofEntries es
  | v => if v.truthy then .error .noMember else .ok (.node [] [])

mutual
/-- Every key outside `or`, those of a mapping before those of its alternatives. -/
def keys : Condition → List String
  | .node own alternatives => own.map (·.1) ++ keysAll alternatives

def keysAll : List Condition → List String
  | [] => []
  | c :: cs => keys c ++ keysAll cs
end

end Condition

end TableAccess
