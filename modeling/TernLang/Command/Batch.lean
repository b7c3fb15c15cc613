import TernLang.Command.Files
import TernLang.Session

-- Runs of one program, with its trace in a file.

namespace TernLang

-- How a run ended: its outcome, what it wrote, the files after it and the global names.
structure Batch where
  outcome : Except Failure Value
  session : Session
  files : Files

namespace Batch

variable [Machine]

-- Begins the file of the trace, if there is to be one.
def beginTrace (settings : Settings) (files : Files) : Files :=
  if 0 < settings.level then files.write files.trace "" else files

-- The same if the file can be opened.
def openTrace (settings : Settings) (files : Files) : Except Obstacle Files :=
  if 0 < settings.level ∧ files.isDirectory files.trace then .error .isDirectory
  else .ok (beginTrace settings files)

-- Puts the trace of a session into its file, if there is one.
def saveTrace (session : Session) (files : Files) : Files :=
  if 0 < session.settings.level then
    files.write files.trace (Event.render session.state.trace.toList)
  else files

-- Runs a program in a new session.
def ofNode (settings : Settings) (files : Files) (input : String) (program : Node) : Batch :=
  let (outcome, session) := (Session.start settings input).run program
  { outcome, session, files := saveTrace session files }

-- An ending before a program could be run.
def unstarted (settings : Settings) (files : Files) (input : String) (failure : Failure) : Batch :=
  { outcome := .error failure, session := .start settings input, files }

-- Runs the program of a source text. The trace begins once the text has been parsed.
def ofSource (settings : Settings) (files : Files) (input source : String) : Batch :=
  match Node.parse source with
  | .error failure => unstarted settings files input failure
  | .ok program =>
    match openTrace settings files with
    | .error obstacle => unstarted settings files input (.fault (.unopened obstacle))
    | .ok files => ofNode settings files input program

-- The text in a file, with newlines at the ends of all lines.
def textOf (files : Files) (name : String) : Except Obstacle String := do
  let text ← files.read name
  return String.ofList (Text.unifyLines text.toList)

-- Runs the program in a file, if that can be opened.
def ofFile (settings : Settings) (files : Files) (input name : String) : Except Obstacle Batch := do
  let source ← textOf files name
  return ofSource settings files input source

end Batch

end TernLang
