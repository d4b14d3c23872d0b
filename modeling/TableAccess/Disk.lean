import TableAccess.Act
import TableAccess.Disk.Path

/-! A disk: directories and files by their components from the root. A path is walked one component
at a time, each step starting in a directory; what a walk ends at need not exist yet. -/

namespace TableAccess

structure Disk where
  directories : List (List String)
  files : List (List String × List UInt8)

namespace Disk

def isDirectory (d : Disk) (place : List String) : Bool :=
  place.isEmpty || d.directories.contains place

def read? (d : Disk) (place : List String) : Option (List UInt8) :=
  (d.files.find? fun f => f.1 == place).map (·.2)

def isFile (d : Disk) (place : List String) : Bool := (d.read? place).isSome

def delete (d : Disk) (place : List String) : Disk :=
  { d with files := d.files.filter fun f => f.1 != place }

def write (d : Disk) (place : List String) (content : List UInt8) : Disk :=
  { d with files := (place, content) :: (d.delete place).files }

theorem read?_delete (d : Disk) (place other : List String) :
    (d.delete place).read? other = if other = place then none else d.read? other := by
  simp only [delete, read?, List.find?_filter]
  by_cases h : other = place
  · subst h
    simp
  · simp only [h, if_false]
    congr 2
    funext f
    by_cases hf : f.1 = other <;> simp [hf, h]

theorem read?_write (d : Disk) (place other : List String) (content : List UInt8) :
    (d.write place content).read? other =
      if other = place then some content else d.read? other := by
  by_cases h : other = place
  · simp [write, read?, h]
  · have hb : (place == other) = false := by simp [Ne.symm h]
    have hd := read?_delete d place other
    simp only [read?, h, if_false] at hd
    simpa [write, read?, hb, h] using hd

/-- Makes a directory and those it lies in. -/
def makeDirectory (d : Disk) (place : List String) : Disk :=
  { d with directories := d.directories ++ (List.range (place.length + 1)).map place.take }

/-- The longest name and the longest path, in bytes. -/
def nameLimit : Nat := 255

def pathLimit : Nat := 4095

/-- Walks from a place. -/
def walk (d : Disk) (place : List String) : List String → Except FileProblem (List String)
  | [] => .ok place
  | part :: rest =>
    if d.isFile place then .error .notDirectory
    else if !d.isDirectory place then .error .missing
    else if part = Path.parent then walk d place.dropLast rest
    else if nameLimit < part.utf8ByteSize then .error .nameTooLong
    else walk d (place ++ [part]) rest

/-- Whether a path can be handed to the disk at all. -/
def hasNull (p : Path) : Bool := p.parts.any fun part => part.toList.contains '\x00'

/-- The place of a path for someone in `directory`. -/
def locate (d : Disk) (directory : List String) (p : Path) : Except FileProblem (List String) :=
  if pathLimit < p.toText.utf8ByteSize then .error .nameTooLong
  else if p.slashes = 0 then d.walk directory p.parts
  else d.walk [] p.parts

/-- The place of an existing file; anything else that a path may lead to is none. -/
def file? (d : Disk) (directory : List String) (p : Path) :
    Except Failure (Option (List String)) :=
  if hasNull p then .ok none
  else match d.locate directory p with
    | .ok place => .ok (if d.isFile place then some place else none)
    | .error .nameTooLong => .error (.file .nameTooLong p.toText)
    | .error _ => .ok none

/-- The disk with a file written, which is made if it is not there. -/
def writeAt (d : Disk) (directory : List String) (p : Path) (content : List UInt8) :
    Except Failure Disk :=
  if hasNull p then .error .nullByte
  else match d.locate directory p with
    | .error problem => .error (.file problem p.toText)
    | .ok place =>
      if d.isDirectory place then .error (.file .isDirectory p.toText)
      else .ok (d.write place content)

/-- The files below a directory by their relative paths. -/
def below (d : Disk) (root : List String) : List (String × List UInt8) :=
  (d.files.filterMap fun f => (Path.relative? root f.1).map fun rest =>
    (Path.partsText rest, f.2)).mergeSort fun a b => decide (a.1 ≤ b.1)

end Disk

end TableAccess
