import TernLang.Token.Basic
import TernLang.Value.Kind

-- Errors of the language: what went wrong, its class and wording, and where it happened.

namespace TernLang

namespace Error

-- The classes of errors.
inductive Class where
  | general
  | lexical
  | parse
  | undefinedName
  | arity
  | typeMismatch
  | propertyNotFound
  | divisionByZero
  | recursionDepth
deriving DecidableEq, Repr

namespace Class

def name : Class → String
  | general => "TernError"
  | lexical => "LexError"
  | parse => "ParseError"
  | undefinedName => "UndefinedNameError"
  | arity => "ArityError"
  | typeMismatch => "TypeMismatchError"
  | propertyNotFound => "PropertyNotFoundError"
  | divisionByZero => "DivisionByZeroError"
  | recursionDepth => "RecursionDepthError"

def all : List Class :=
  [general, lexical, parse, undefinedName, arity, typeMismatch, propertyNotFound, divisionByZero,
   recursionDepth]

def ofName? (s : String) : Option Class := all.find? (·.name = s)

end Class

-- What went wrong. A token that was met is `none` at the end of the input; `shown` is text as it
-- stands in the message.
inductive Cause where
  -- Reading a source text.
  | unexpectedCharacter (c : Char)
  | malformedNumber (text : String)
  -- The grammar.
  | tooNested (limit : Nat)
  | expectedKind (kind : Token.Kind) (got : Option Token)
  | expectedWord (word : String) (got : Option Token)
  | expectedIdentifier (got : Option Token)
  | expectedParameter (got : Option Token)
  | expectedSeparator (got : Option Token)
  | unexpectedKeyword (shown : String)
  | unexpectedToken (got : Token)
  | unexpectedEnd
  | invalidTarget
  | literalOutOfRange (shown : String)
  | nestsTooDeeply
  -- Names.
  | undefinedName (name : String)
  | unassignable
  | notDestructurable (kind : Kind)
  | tupleSize (values names : Nat)
  -- Calls.
  | argumentCount (function : String) (expected got : Nat)
  | argumentKind (parameter function : String) (expected got : Kind)
  | resultKind (function : String) (expected got : Kind)
  | callDepth (limit : Int)
  | stackExhausted
  -- Values.
  | noMethod (shown : String) (kind : Kind)
  | noProperty (shown : String)
  | operandKind (shown : String) (kind : Kind)
  | remainderByZero
  | notConvertible (text target : String)
  | separatorKind (kind : Kind)
  | notAValue (type : String)
  -- An error that an embedding program states in its own words.
  | stated (cls : Class) (message : String)
deriving DecidableEq

namespace Cause

def cls : Cause → Class
  | unexpectedCharacter _ | malformedNumber _ => .lexical
  | tooNested _ | expectedKind .. | expectedWord .. | expectedIdentifier _ | expectedParameter _
  | expectedSeparator _ | unexpectedKeyword _ | unexpectedToken _ | unexpectedEnd | invalidTarget
  | literalOutOfRange _ | nestsTooDeeply => .parse
  | undefinedName _ => .undefinedName
  | unassignable | notDestructurable _ => .typeMismatch
  | tupleSize .. | argumentCount .. => .arity
  | argumentKind .. | resultKind .. => .typeMismatch
  | callDepth _ | stackExhausted => .recursionDepth
  | noMethod .. | noProperty _ => .propertyNotFound
  | operandKind .. | notConvertible .. | separatorKind _ | notAValue _ => .typeMismatch
  | remainderByZero => .divisionByZero
  | stated cls _ => cls

def message : Cause → String
  | unexpectedCharacter c => s!"unexpected character {Text.quote c.toString}"
  | malformedNumber text => s!"malformed number {Text.quote text}"
  | tooNested limit => s!"nesting deeper than {limit} levels"
  | expectedKind kind got => s!"expected {kind.name}, got {Token.describeNext got}"
  | expectedWord word got => s!"expected {Text.quote word}, got {Token.describeNext got}"
  | expectedIdentifier got => s!"expected an identifier, got {Token.describeNext got}"
  | expectedParameter got => s!"expected a parameter name, got {Token.describeNext got}"
  | expectedSeparator got => s!"expected ',' or ')', got {Token.describeNext got}"
  | unexpectedKeyword shown => s!"unexpected keyword {shown}"
  | unexpectedToken got => s!"unexpected token {got.describe}"
  | unexpectedEnd => "unexpected end of input in expression"
  | invalidTarget => "invalid assignment target"
  | literalOutOfRange shown => s!"integer literal {shown} out of range"
  | nestsTooDeeply => "program nests too deeply"
  | undefinedName name => s!"undefined variable {name}"
  | unassignable => "invalid assignment target"
  | notDestructurable kind => s!"cannot destructure {kind.name} into a tuple"
  | tupleSize values names => s!"tuple of {values} values cannot be bound to {names} names"
  | argumentCount function expected got => s!"{function} expects {expected} arguments, got {got}"
  | argumentKind parameter function expected got =>
    s!"parameter {parameter} of {function} expects {expected.name}, got {got.name}"
  | resultKind function expected got => s!"{function} must return {expected.name}, got {got.name}"
  | callDepth limit => s!"maximum call depth {limit} exceeded"
  | stackExhausted => "host stack exhausted"
  | noMethod shown kind => s!"method {shown} not found on {kind.name}"
  | noProperty shown => s!"property {shown} not found on Object"
  | operandKind shown kind => s!"unary {shown} cannot be applied to {kind.name}"
  | remainderByZero => "integer remainder by zero"
  | notConvertible text target => s!"cannot convert {Text.quote text} to {target}"
  | separatorKind kind => s!"split separator must be String, got {kind.name}"
  | notAValue type => s!"{type} is not a Tern value"
  | stated _ message => message

end Cause

end Error

-- An error and the place it happened at.
structure Error where
  cause : Error.Cause
  place : Place := .unknown
deriving DecidableEq

namespace Error

-- Attaches a place to an error that has none yet.
def locate (e : Error) (place : Place) : Error :=
  if e.place.Known then e else if place.Known then { e with place } else e

-- The line that reports an error.
def text (e : Error) : String :=
  if e.place.Known then s!"{e.cause.cls.name} at {e.place.text}: {e.cause.message}"
  else s!"{e.cause.cls.name}: {e.cause.message}"

@[simp]
theorem cause_locate (e : Error) (place : Place) : (e.locate place).cause = e.cause := by
  unfold Error.locate
  split
  · rfl
  · split <;> rfl

-- The first place that is attached stays.
theorem locate_of_known {e : Error} (h : e.place.Known) (place : Place) : e.locate place = e := by
  simp [Error.locate, h]

end Error

end TernLang
