import TernLang.Command.Path
import TernLang.Failure

-- The files that a command finds and writes, and the directories they are in.

namespace TernLang

-- Where a file or a directory is: the steps that lead to it from the root.
abbrev Location := List String

structure Files where
  -- The texts in the files. The last one that was written stands first.
  texts : List (Location × String) := []
  -- Further directories, beside those with files in them.
  folders : List Location := []
  -- The working directory.
  home : Location := []

namespace Files

-- The most bytes that a step of a name may have.
def stepLimit : Nat := 255

-- The most bytes that a whole name may have.
def nameLimit : Nat := 4095

def textAt? (f : Files) (l : Location) : Option String := f.texts.lookup l

-- Directories that all others are above.
def innermost (f : Files) : List Location := f.home :: f.folders ++ f.texts.map (·.1.dropLast)

def isDirectory (f : Files) (l : Location) : Bool := f.innermost.any l.isPrefixOf

-- A step to a new name, which has to be short enough.
def enter (here : Location) (step : String) : Except Obstacle Location :=
  if stepLimit < step.utf8ByteSize then .error .nameTooLong else .ok (here ++ [step])

-- Where a step leads; `..` goes back, as far as there is something to go back to, and `.` and
-- nothing stay. It has to start at a directory.
def follow (f : Files) (here : Location) (step : String) : Except Obstacle Location :=
  if !f.isDirectory here then .error .notDirectory
  else if step = "" ∨ step = "." then .ok here
  else if step = ".." then .ok here.dropLast
  else do
    let there ← enter here step
    if f.isDirectory there || (f.textAt? there).isSome then .ok there else .error .missing

-- Where the steps of a name lead, one after the other.
def walk (f : Files) (here : Location) : List String → Except Obstacle Location
  | [] => .ok here
  | step :: steps => do
    let there ← f.follow here step
    f.walk there steps

-- Refuses a name as a whole: one with a character that no name has, one that is too long, and the
-- empty one.
def checkName (name : String) : Except Obstacle Unit :=
  if name.toList.contains '\x00' then .error .invalidName
  else if nameLimit < name.utf8ByteSize then .error .nameTooLong
  else if name = "" then .error .missing
  else .ok ()

-- Where names lead from that start like this.
def origin (f : Files) (root : String) : Location := if root = "" then f.home else []

-- Where a name leads.
def locate (f : Files) (name : String) : Except Obstacle Location := do
  checkName name
  f.walk (f.origin (Path.rootOf name.toList)) (Path.stepsOf name)

-- The text of the file that a name leads to.
def read (f : Files) (name : String) : Except Obstacle String := do
  let there ← f.locate name
  if f.isDirectory there then .error .isDirectory
  else
    match f.textAt? there with
    | some text => .ok text
    | none => .error .missing

-- Where a file is written. It may be new, but its directory has to be there.
def target (f : Files) (p : Path) : Except Obstacle Location := do
  checkName p.text
  let directory ← f.walk (f.origin p.root) p.steps.dropLast
  if !f.isDirectory directory then .error .notDirectory
  else
    match p.steps.getLast? with
    | none | some ".." => .error .isDirectory
    | some last => do
      let there ← enter directory last
      if f.isDirectory there then .error .isDirectory else .ok there

-- Writes a file anew.
def write (f : Files) (l : Location) (text : String) : Files :=
  { f with texts := (l, text) :: f.texts }

-- The file of the trace.
def trace (f : Files) : Location := f.home ++ ["debug.txt"]

-- The name of a location, which need not start at the root if it is inside the working directory.
def nameOf (f : Files) (l : Location) : String :=
  if f.home.isPrefixOf l then "/".intercalate (l.drop f.home.length)
  else "/" ++ "/".intercalate l

-- The files that are new or have another text than before, under their names.
def changedSince (f before : Files) : List (String × String) :=
  (f.texts.map (·.1)).eraseDups.filterMap fun l => do
    let text ← f.textAt? l
    if before.textAt? l = some text then none else some (f.nameOf l, text)

-- Files under names that lead on from the working directory.
def ofNames (home : Location) (names : List (String × String)) : Files where
  texts := names.map fun (name, text) => (home ++ (Path.parse name).steps, text)
  home

end Files

end TernLang
