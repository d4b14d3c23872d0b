import TableAccess.Command

/-! The program on a real disk. The two files that a command may touch are read before it runs,
and what has become of them is written back afterwards. No database can be reached from here, so
a table is only created as far as `--dry-run` goes. -/

namespace TableAccess.Command

/-- The directories and files on the way to a place. -/
def readPlace (disk : Disk) (place : List String) : IO Disk := do
  let root := (← IO.currentDir) / "/"
  let mut disk := disk
  let mut known := []
  for part in place do
    known := known ++ [part]
    let path := known.foldl (fun p name => p / name) root
    if ← path.isDir then disk := disk.makeDirectory known
    else if ← path.pathExists then
      if !disk.isFile known then
        disk := disk.write known (← IO.FS.readBinFile path).toList
  return disk

/-- Brings a real file to the state that it has on the disk. -/
def writePlace (before after : Disk) (place : List String) : IO Unit := do
  let path := place.foldl (fun p name => p / name) ((← IO.currentDir) / "/")
  match before.read? place, after.read? place with
  | some _, none => IO.FS.removeFile path
  | old, some new =>
    if old != some new then IO.FS.writeBinFile path ⟨new.toArray⟩
  | none, none => return

def noDatabase : Failure := .outside .system "no database can be reached"

/-- The files that an invocation may touch. -/
def places (desk : Workplace) (argv : List String) : List (List String) :=
  let credentials := match invocation argv with
    | .ok i => i.credentials
    | .error _ => .null
  match Credentials.path credentials desk with
  | (.ok path, _) =>
    [path.resolved desk.directory, desk.directory ++ [IgnoreFile.name]]
  | (.error _, _) => []

end TableAccess.Command

open TableAccess in
def main (argv : List String) : IO UInt32 := do
  let directory := (Path.ofText (← IO.currentDir).toString).parts
  let named? ← IO.getEnv "PG_COLLECTIONS_CREDENTIALS"
  let world := { World.empty with faults := [⟨.pool, Command.noDatabase⟩] }
  let desk : Workplace := ⟨⟨[], []⟩, directory, named?, world, [], ""⟩
  let touched := Command.places desk argv
  let disk ← (directory :: touched).foldlM Command.readPlace desk.disk
  let (outcome, after) := Command.launch argv { desk with disk := disk }
  for place in touched do
    Command.writePlace disk after.disk place
  match outcome with
  | .stopped code => return code.toUInt32
  | .finished code printed said =>
    (← IO.getStdout).putStr printed
    (← IO.getStderr).putStr said
    return code.toUInt32
