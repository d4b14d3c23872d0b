import TableAccess.Workplace
import TableAccess.Text.Blank

/-! Keeping a file out of version control. Only an ignore file that exists is changed: an entry
that no line of it lists is added at the end, and blank lines are dropped on that occasion. -/

namespace TableAccess.IgnoreFile

open Text

def name : String := ".gitignore"

def isSlash (c : Char) : Bool := c == '/'

/-- What a line lists: the line without blanks at its ends and slashes in front. -/
def listed (line : List Char) : List Char := (trim line).dropWhile isSlash

def isBlankLine (line : List Char) : Bool := line.all isBlank

/-- The text with the entry added, unless some line lists it. -/
def patch? (entry text : List Char) : Option (List Char) :=
  let found := lines (foldNewlines text)
  if found.any fun line => listed line == entry then none
  else some (((found.filter fun line => !isBlankLine line) ++ [entry]).flatMap (· ++ ['\n']))

/-- Adds a file to the ignore file of a root directory, the working directory if none is given.
Files outside the root are left alone. -/
def ensure (file : Path) (root? : Option Path) : Act Workplace Bool := do
  let root ← match root? with
    | some root => pure root
    | none => Workplace.here
  let ignore := root.child name
  match ← Workplace.file? ignore with
  | none => return false
  | some place =>
    if Disk.hasNull file then throw .nullByteInPath
    let directory := (← get).directory
    match Path.relative? (root.resolved directory) (file.resolved directory) with
    | none => return false
    | some rest =>
      let entry := Path.partsText rest
      match Text.Utf8.decode (← Workplace.content place) with
      | .error e => throw (.undecodable e)
      | .ok text =>
        match patch? entry.toList text with
        | none => return false
        | some patched =>
          Workplace.write ignore patched
          Workplace.say .info ("Added " ++ entry ++ " to " ++ ignore.toText)
          return true

end TableAccess.IgnoreFile
