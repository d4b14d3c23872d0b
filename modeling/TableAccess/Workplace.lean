import TableAccess.World
import TableAccess.Disk

/-! Where commands run: a disk, a directory, the variable that may name the credentials file, the
world of the pools, and what has been said so far. Every message is kept with its level; which ones
are shown is decided at the end. -/

namespace TableAccess

/-- How important a message is. -/
inductive Level where
  | debug
  | info
  | error
  deriving DecidableEq, Repr

structure Workplace where
  disk : Disk
  directory : List String
  credentials? : Option String
  world : World
  messages : List (Level × String)
  printed : String

namespace Level

def name : Level → String
  | .debug => "DEBUG"
  | .info => "INFO"
  | .error => "ERROR"

end Level

namespace Workplace

def onWorld {α : Type} (step : Act World α) : Act Workplace α :=
  Act.within (·.world) (fun w s => { s with world := w }) step

def say (level : Level) (message : String) : Act Workplace Unit :=
  modify fun s => { s with messages := s.messages ++ [(level, message)] }

/-- Prints a line. -/
def print (line : String) : Act Workplace Unit :=
  modify fun s => { s with printed := s.printed ++ line ++ "\n" }

/-- The place of an existing file. -/
def file? (p : Path) : Act Workplace (Option (List String)) := do
  let s ← get
  Act.settle (s.disk.file? s.directory p)

def content (place : List String) : Act Workplace (List UInt8) := do
  return ((← get).disk.read? place).getD []

def write (p : Path) (content : List Char) : Act Workplace Unit := do
  let s ← get
  let disk ← Act.settle (s.disk.writeAt s.directory p (Text.Utf8.encode content))
  set { s with disk := disk }

def delete (place : List String) : Act Workplace Unit :=
  modify fun s => { s with disk := s.disk.delete place }

/-- The working directory as a path. -/
def here : Act Workplace Path := do return ⟨1, (← get).directory⟩

/-- The messages as lines, those for debugging only when they are wanted. -/
def shown (s : Workplace) (verbose : Bool) : String :=
  String.join ((s.messages.filter fun m => verbose || m.1 != .debug).map fun m =>
    m.1.name ++ " " ++ m.2 ++ "\n")

end Workplace

end TableAccess
