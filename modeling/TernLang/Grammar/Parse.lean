import TernLang.Failure
import TernLang.Ast.Node

-- Reading from a list of tokens, and the few ways in which the grammar looks at the next one.
--
-- The end of the input is the end of the list. A refusal there gets its place when the place of the
-- end is known.

namespace TernLang.Grammar

-- Why a list of tokens is no program, and the token at which this shows.
inductive Refusal where
  | error (cause : Error.Cause) (token : Option Token)
  | fault (f : Fault)
deriving DecidableEq

def Refusal.toFailure (final : Place) : Refusal → Failure
  | .error cause (some t) => .error ⟨cause, t.place⟩
  | .error cause none => .error ⟨cause, final⟩
  | .fault f => .fault f

abbrev Parse := StateT (List Token) (Except Refusal)

namespace Parse

def refuse {α : Type} (cause : Error.Cause) (token : Option Token) : Parse α :=
  throw (.error cause token)

-- The next token, which stays.
def peek : Parse (Option Token) := do return (← get).head?

-- Takes the next token away.
def advance : Parse Unit := modify List.tail

def nextIs (kind : Token.Kind) : Parse Bool := do return (← peek).any (·.kind = kind)

def nextIsWord (words : List String) : Parse Bool := do
  return (← peek).any fun t => t.kind = .keyword && t.isOneOf words

-- Takes a token of the given kind.
def expect (kind : Token.Kind) : Parse Token := do
  let next ← peek
  match next with
  | some t => if t.kind = kind then do advance; pure t else refuse (.expectedKind kind next) next
  | none => refuse (.expectedKind kind next) next

-- Takes the given keyword.
def expectWord (word : String) : Parse Token := do
  let next ← peek
  match next with
  | some t =>
    if t.kind = .keyword ∧ t.text = .str word then do advance; pure t
    else refuse (.expectedWord word next) next
  | none => refuse (.expectedWord word next) next

-- Takes a token of the given kind if it is next.
def skip (kind : Token.Kind) : Parse Unit := do
  if ← nextIs kind then advance

-- Runs a loop with a bound on its rounds. Every round takes a token, so that one more than the
-- number of tokens is enough.
def loop {α : Type} (body : Nat → Parse α) : Parse α := do
  body ((← get).length + 1)

-- Items up to a token of the given kind, each followed by a comma or by that token.
def separated {α : Type} (close : Token.Kind) (item : Parse α) : Nat → Parse (List α)
  | 0 => pure []
  | n + 1 => do
    if ← nextIs close then pure []
    else
      let first ← item
      if ← nextIs .comma then advance
      else if !(← nextIs close) then
        let next ← peek
        refuse (.expectedSeparator next) next
      let rest ← separated close item n
      pure (first :: rest)

-- Items up to a token of the given kind.
def upTo {α : Type} (close : Token.Kind) (item : Parse α) : Nat → Parse (List α)
  | 0 => pure []
  | n + 1 => do
    if ← nextIs close then pure []
    else
      let first ← item
      let rest ← upTo close item n
      pure (first :: rest)

end Parse

end TernLang.Grammar
