import TernLang.Ast.Codec
import TernLang.Command.Batch
import TernLang.Command.Options
import TernLang.Json.Reader
import TernLang.Json.Writer

-- The command: it runs a program from its source or from a document, writes the document of a
-- program, or reads and runs one line after another.

namespace TernLang

namespace Command

variable [Machine]

-- How the command ends: with a status, or with a fault that nothing catches.
inductive Ending where
  | status (n : Nat)
  | fault (f : Fault)
deriving DecidableEq

structure Outcome where
  ending : Ending
  output : String := ""
  errors : String := ""
  files : Files

def usage : String :=
  "usage: tern [-h] [-v] [--max-depth MAX_DEPTH] " ++
    "[--emit-ast TERN_FILE | --ast AST_JSON_FILE | --repl] [program]\n"

-- The line that reports an error.
def report (message : String) : String := "Error: " ++ message ++ "\n"

-- An ending after an error that is reported.
def failed (files : Files) (output message : String) : Outcome :=
  { ending := .status 1, output, errors := report message, files }

-- An ending after a failure: an error is reported, and a fault is not.
def ofFailure (files : Files) (output : String) : Failure → Outcome
  | .error e => failed files output e.text
  | .fault f => { ending := .fault f, output, files }

-- An ending because a file could not be opened.
def unopened (files : Files) (obstacle : Obstacle) : Outcome :=
  { ending := .fault (.unopened obstacle), files }

-- An ending because a file could not be read. That it is not there is reported.
def unread (files : Files) (path : Path) : Obstacle → Outcome
  | .missing | .notDirectory | .invalidName =>
    failed files "" ("file " ++ path.text ++ " not found")
  | obstacle => unopened files obstacle

-- Writes the document of a program beside its source. The file is there before the document is
-- written.
def emit (files : Files) (name : String) : Outcome :=
  let path := Path.parse name
  match Batch.textOf files path.text with
  | .error obstacle => unread files path obstacle
  | .ok source =>
    match Node.parse source with
    | .error failure => ofFailure files "" failure
    | .ok program =>
      let target := path.extend ".ast.json"
      match files.target target with
      | .error obstacle => unopened files obstacle
      | .ok place =>
        let json := program.toTree.toJson
        if Machine.writes json then
          { ending := .status 0, output := target.text ++ "\n"
            files := files.write place json.render }
        else { ending := .fault .endlessText, files := files.write place "" }

-- Runs a program to its end.
def runProgram (settings : Settings) (files : Files) (input : String) (program : Node) : Outcome :=
  let batch := Batch.ofNode settings files input program
  let output := batch.session.state.output
  match batch.outcome with
  | .ok _ => { ending := .status 0, output, files := batch.files }
  | .error failure => ofFailure batch.files output failure

-- Runs the program of a source file.
def runSource (settings : Settings) (files : Files) (input name : String) : Outcome :=
  let path := Path.parse name
  match Batch.textOf files path.text with
  | .error obstacle => unread files path obstacle
  | .ok source =>
    match Node.parse source with
    | .error failure => ofFailure files "" failure
    | .ok program => runProgram settings files input program

-- The ending for a text that is no document, by the name of its file and what is wrong with it.
def invalid (files : Files) (name flaw : String) : Outcome :=
  failed files "" ("invalid AST file " ++ name ++ ": " ++ flaw)

-- The ending for a text that is no JSON, or that no text can be made of.
def flawed (files : Files) (name : String) : Json.Flaw → Outcome
  | .malformed => invalid files name "<malformed JSON>"
  | .tooManyDigits n =>
    invalid files name <|
      s!"Exceeds the limit ({Reading.digitLimit} digits) for integer string conversion: " ++
        s!"value has {n} digits; use sys.set_int_max_str_digits() to increase the limit"
  | .halfCharacter => { ending := .fault .halfCharacter, files }

-- Runs the program of a document.
def runDocument (settings : Settings) (files : Files) (input name : String) : Outcome :=
  let path := Path.parse name
  match Batch.textOf files path.text with
  | .error obstacle => unread files path obstacle
  | .ok text =>
    match Json.parse text with
    | .error flaw => flawed files name flaw
    | .ok json =>
      if Machine.reads json then
        match Tree.ofJson json with
        | .error defect => invalid files name defect.message
        | .ok tree => runProgram settings files input tree.toNode
      else { ending := .fault .endlessText, files }

-- What is shown before each line is read.
def prompt : String := "tern> "

-- Runs one line and shows its value, unless that is null. Gives what is reported.
def runLine (session : Session) (line : List Char) : Except Fault String × Session :=
  if line.all Text.isBlank then (.ok "", session)
  else
    match session.runSource (String.ofList line) with
    | (.ok .null, session) => (.ok "", session)
    | (.ok value, session) =>
      (.ok "", (session.perform (Eval.write (value.display ++ "\n"))).2)
    | (.error (.error e), session) => (.ok (report e.text), session)
    | (.error (.fault f), session) => (.error f, session)

-- Reads and runs lines until the input ends, at most as many as the first argument says.
def repl : Nat → String → Session → Ending × String × Session
  | 0, errors, session => (.status 0, errors, session)
  | n + 1, errors, session =>
    let (line, rest) := Text.firstLine session.state.input
    let shown := { session.state with output := session.state.output ++ prompt, input := rest }
    let session := { session with state := shown }
    if line.isEmpty then (.status 0, errors, (session.perform (Eval.write "\n")).2)
    else
      match runLine session (Text.dropNewline line) with
      | (.ok reported, session) => repl n (errors ++ reported) session
      | (.error f, session) => (.fault f, errors, session)

-- Reads lines and runs them in one session. Every round takes a character of the input, or ends.
def runLines (settings : Settings) (files : Files) (input : String) : Outcome :=
  let (ending, errors, session) := repl (input.length + 1) "" (.start settings input)
  { ending, output := session.state.output, errors, files := Batch.saveTrace session files }

-- An option that was given with a text.
def given (value : Option String) : Option String := value.filter (· ≠ "")

-- Goes on once the trace has begun.
def tracing (settings : Settings) (files : Files) (go : Files → Outcome) : Outcome :=
  match Batch.openTrace settings files with
  | .error obstacle => unopened files obstacle
  | .ok files => go files

-- What the options ask for.
def perform (options : Options) (files : Files) (input : String) : Outcome :=
  match given options.emit with
  | some name => emit files name
  | none =>
    let settings : Settings := { level := options.verbosity, depth := options.depth }
    tracing settings files fun files =>
      match options.repl, given options.ast, given options.program with
      | true, _, _ | false, none, none => runLines settings files input
      | false, some name, _ => runDocument settings files input name
      | false, none, some name => runSource settings files input name

-- The command with its arguments, the files that it finds and all of its input.
def run (args : List String) (files : Files) (input : String) : Outcome :=
  match Options.parse args with
  | .ok options => perform options files input
  | .error .help => { ending := .status 0, output := usage, files }
  | .error .usage => { ending := .status 2, errors := usage, files }

end Command

end TernLang
