import TableAccess.Text.Split

/-! Paths. Empty components and single dots say nothing and are dropped; two dots are kept, because
what they mean depends on the disk. A path that starts with exactly two slashes keeps both. -/

namespace TableAccess

/-- A path: nothing, one slash or two slashes, and the components after that. -/
structure Path where
  slashes : Nat
  parts : List String
  deriving DecidableEq, Repr

namespace Path

def parent : String := ".."

def isPart (cs : List Char) : Bool := !cs.isEmpty && cs != ['.']

def ofText (s : String) : Path :=
  let cs := s.toList
  let leading := (cs.takeWhile (· == '/')).length
  { slashes := if leading = 2 then 2 else if leading = 0 then 0 else 1
    parts := ((Text.split '/' cs).filter isPart).map String.ofList }

/-- Components with a slash between neighbours, a single dot for none. -/
def partsText : List String → String
  | [] => "."
  | parts => "/".intercalate parts

def toText (p : Path) : String :=
  if p.slashes = 0 then partsText p.parts
  else String.ofList (List.replicate p.slashes '/') ++ "/".intercalate p.parts

def child (p : Path) (name : String) : Path := { p with parts := p.parts ++ [name] }

/-- The components from the root of the disk, for a path that starts in `directory`. -/
def absolute (directory : List String) (p : Path) : List String :=
  if p.slashes = 0 then directory ++ p.parts else p.parts

/-- Removes two dots together with the component before them. -/
def withoutParents (parts : List String) : List String :=
  parts.foldl (fun done part => if part = parent then done.dropLast else done ++ [part]) []

/-- The place that a path means when nothing on the disk is asked. -/
def resolved (directory : List String) (p : Path) : List String :=
  withoutParents (p.absolute directory)

/-- The rest of `place` behind `root`, if it lies there. -/
def relative? (root place : List String) : Option (List String) :=
  if root.isPrefixOf place then some (place.drop root.length) else none

theorem relative?_eq_some_iff (root place rest : List String) :
    relative? root place = some rest ↔ place = root ++ rest := by
  unfold relative?
  constructor
  · intro h
    split at h
    · rename_i hp
      obtain ⟨more, rfl⟩ := List.isPrefixOf_iff_prefix.mp hp
      simpa using h
    · cases h
  · rintro rfl
    simp

end Path

end TableAccess
