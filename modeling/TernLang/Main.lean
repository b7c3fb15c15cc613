import TernLang.Command.Run

-- The command line program. All of the input is read before the command starts, and its files are
-- written when it has ended.

namespace TernLang.Main

-- The files that the command may read or write: those that the options name, a document beside one
-- of them, and the trace.
def paths (args : List String) : List Path :=
  match Options.parse args with
  | .ok options =>
    let emitted := options.emit.map Path.parse
    Path.parse "debug.txt" :: emitted.toList ++ (emitted.map (·.extend ".ast.json")).toList ++
      ([options.ast, options.program].filterMap id).map Path.parse
  | .error _ => []

-- Where steps lead if all of them are directories.
def resolve (here : Location) : List String → Location
  | [] => here
  | step :: steps => resolve (if step = ".." then here.dropLast else here ++ [step]) steps

-- What there is of some files, and of the directories on the way to them.
def findFiles (paths : List Path) : IO Files := do
  let here ← IO.currentDir
  let home := (Path.parse here.toString).steps
  let mut files : Files := { home }
  for path in paths do
    for n in List.range (path.steps.length + 1) do
      let steps := path.steps.take n
      let place := resolve (files.origin path.root) steps
      let name := here / (path.root ++ "/".intercalate steps)
      if ← name.isDir then
        files := { files with folders := place :: files.folders }
      else if let .ok text ← (IO.FS.readFile name).toBaseIO then
        files := files.write place text
  return files

end TernLang.Main

open TernLang in
def main (args : List String) : IO UInt32 := do
  let files ← Main.findFiles (Main.paths args)
  let input ← (← IO.getStdin).readToEnd
  let outcome := @Command.run Machine.usual args files input
  IO.print outcome.output
  IO.eprint outcome.errors
  for (name, text) in outcome.files.changedSince files do
    IO.FS.writeFile name text
  match outcome.ending with
  | .status n => return n.toUInt32
  | .fault _ => return 1
