import TernLang.Proofs.Command.Emission
import TernLang.Proofs.Eval.Progress

-- How the command ends: with success, or with an error that it has reported. This takes a stack for
-- the calls that a program may make, names that are short enough for files and do not lead to
-- directories, and that a document which can be read holds a program. Even so a number with too
-- many digits can end it otherwise.

namespace TernLang

namespace Settings

end Settings

namespace Session

variable {s : Session} {source : String}

end Session

namespace Command

open Batch

namespace Outcome

end Outcome

section Endings

variable {files : Files} {name : String} {settings : Settings} {input : String}

variable [Machine]

end Endings

-- What is asked of the command.
inductive Task where
  | emit (name : String)
  | lines (settings : Settings)
  | document (settings : Settings) (name : String)
  | source (settings : Settings) (name : String)

namespace Task

-- The trace is begun before a task that runs something.
def perform [Machine] (files : Files) (input : String) : Task → Outcome
  | emit name => Command.emit files name
  | lines settings => tracing settings files fun files => runLines settings files input
  | document settings name =>
    tracing settings files fun files => runDocument settings files input name
  | source settings name => tracing settings files fun files => runSource settings files input name

end Task

section

attribute [local instance] Machine.usual

end

end Command

end TernLang
