import TernLang.Number.Reading
import TernLang.Text.Split

-- The options of the command.
--
-- A long option may be cut short as long as it stays clear which one is meant, and may have its
-- value after an equals sign. Short options may be joined. Two dashes alone end the options. What
-- looks like a negative number, and what has a space in it, is no option.

namespace TernLang

namespace Options

inductive Flag where
  | help
  | verbose
  | depth
  | emit
  | ast
  | repl
deriving DecidableEq, Repr

namespace Flag

def names : List (String × Flag) :=
  [("-h", help), ("--help", help), ("-v", verbose), ("--max-depth", depth), ("--emit-ast", emit),
   ("--ast", ast), ("--repl", repl)]

def ofName? (s : String) : Option Flag := (names.find? (·.1 = s)).map (·.2)

def takesValue : Flag → Bool
  | depth | emit | ast => true
  | help | verbose | repl => false

-- Whether only one of the flags of this sort may be given.
def isMode : Flag → Bool
  | emit | ast | repl => true
  | _ => false

end Flag

-- An argument by its form.
inductive Word where
  | operand (s : String)
  | separator
  | flag (f : Flag) (value : Option String)
  -- Short options in one argument.
  | joined (flags : List Flag)
  | unknown
  -- Short options with a letter among them that is none, or an option with an empty value that it
  -- cannot have.
  | faulty
deriving DecidableEq, Repr

-- A dash and digits, perhaps with a point and digits after it. A newline may end them.
def isNegativeNumber (cs : List Char) : Bool :=
  match Text.dropNewline cs with
  | '-' :: cs =>
    let digit (c : Char) : Bool := (Text.digitValue? c).isSome
    let (whole, rest) := cs.span digit
    match rest with
    | [] => !whole.isEmpty
    | '.' :: places => !places.isEmpty && places.all digit
    | _ => false
  | _ => false

-- The form of what starts with a dash and is no option.
def other (s : String) : Word :=
  if isNegativeNumber s.toList || s.toList.contains ' ' then .operand s else .unknown

-- The short option of a letter.
def letterFlag? (c : Char) : Option Flag := Flag.ofName? (String.ofList ['-', c])

-- The short options joined in the rest of an argument. An equals sign may stand before them.
def joinedFlags? : List Char → Option (List Flag)
  | ['='] => none
  | '=' :: cs | cs => cs.mapM letterFlag?

-- The long options that a name is short for.
def longFlags (name : List Char) : List Flag :=
  (Flag.names.filter fun entry => name.isPrefixOf entry.1.toList).map (·.2)

-- The form of an argument, unless it could be short for several options.
def classify (s : String) : Option Word :=
  let cs := s.toList
  let name := cs.takeWhile (· ≠ '=')
  let value := ((cs.dropWhile (· ≠ '=')).tail?).map String.ofList
  match Flag.ofName? s, cs with
  | some f, _ => some (.flag f none)
  | none, '-' :: '-' :: _ =>
    match Flag.ofName? (String.ofList name), longFlags name with
    | some f, _ => some (.flag f value)
    | none, [] => some (other s)
    | none, [f] => some (.flag f value)
    | none, _ => none
  | none, '-' :: c :: rest =>
    match letterFlag? c, joinedFlags? rest with
    | some f, some flags => some (.joined (f :: flags))
    | some _, none => some .faulty
    | none, _ => some (other s)
  | none, _ => some (.operand s)

-- The forms of all arguments; after two dashes there are no more options.
def classifyAll : List String → Option (List Word)
  | [] => some []
  | s :: rest =>
    if s = "--" then some (.separator :: rest.map .operand)
    else do
      let word ← classify s
      let words ← classifyAll rest
      some (word :: words)

end Options

structure Options where
  verbosity : Nat := 0
  -- The depth, unless it was given without a value.
  depth : Option Int := some 1000
  emit : Option String := none
  ast : Option String := none
  repl : Bool := false
  program : Option String := none
deriving DecidableEq, Repr

namespace Options

-- Why no options come of the arguments.
inductive Stop where
  | help
  | usage
deriving DecidableEq, Repr

-- The options so far, the mode that was given if one was, whether the operand was, and whether
-- there was an argument too many.
structure Progress where
  options : Options := {}
  mode : Option Flag := none
  operandTaken : Bool := false
  surplus : Bool := false

namespace Progress

-- Notes a flag that asks for a mode, which must not contradict an earlier one.
def chooseMode (p : Progress) (f : Flag) : Except Stop Progress :=
  if f.isMode then
    match p.mode with
    | some g => if g = f then .ok p else .error .usage
    | none => .ok { p with mode := some f }
  else .ok p

-- Takes a flag without a value.
def take (p : Progress) (f : Flag) : Except Stop Progress :=
  match f with
  | .help => .error .help
  | .verbose => .ok { p with options.verbosity := p.options.verbosity + 1 }
  | .repl => do
    let p ← p.chooseMode f
    return { p with options.repl := true }
  | .depth | .emit | .ast => .error .usage

-- Takes a flag with its value. Two dashes for a value stand for none.
def takeValue (p : Progress) (f : Flag) (value : String) : Except Stop Progress :=
  let value := if value = "--" then none else some value
  match f with
  | .depth =>
    match value.map fun s => Reading.looseInteger s.toList with
    | some (.number n) => .ok { p with options.depth := some n }
    | some .tooLong | some .malformed => .error .usage
    | none => .ok { p with options.depth := none }
  | .emit => do
    let p ← p.chooseMode f
    return { p with options.emit := value }
  | .ast => do
    let p ← p.chooseMode f
    return { p with options.ast := value }
  | .help | .verbose | .repl => .error .usage

def takeAll (p : Progress) : List Flag → Except Stop Progress
  | [] => .ok p
  | f :: fs => do
    let p ← p.take f
    p.takeAll fs

-- The first operand names the program, and all others are too many.
def takeOperand (p : Progress) (s : String) : Progress :=
  if p.operandTaken then { p with surplus := true }
  else { p with operandTaken := true, options.program := some s }

end Progress

-- Takes the arguments in order.
def collect (p : Progress) : List Word → Except Stop Progress
  | [] => .ok p
  | .operand s :: .separator :: words | .operand s :: words => collect (p.takeOperand s) words
  | .separator :: words =>
    if p.operandTaken then collect { p with surplus := true } words else collect p words
  | .unknown :: words => collect { p with surplus := true } words
  | .faulty :: _ => .error .usage
  | .joined flags :: words => do
    let p ← p.takeAll flags
    collect p words
  | .flag f none :: words =>
    if f.takesValue then
      match words with
      | .operand value :: words => do
        let p ← p.takeValue f value
        collect p words
      | _ => .error .usage
    else do
      let p ← p.take f
      collect p words
  | .flag f (some value) :: words => do
    let p ← p.takeValue f value
    collect p words

-- The options that the arguments say.
def parse (args : List String) : Except Stop Options :=
  match classifyAll args with
  | none => .error .usage
  | some words => do
    let p ← collect {} words
    if p.surplus then .error .usage else .ok p.options

end Options

end TernLang
