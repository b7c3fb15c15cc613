import TernLang.Error

-- The ways in which work on a program ends without a value: with an error of the language, which is
-- reported, or with a fault, which is not: the program handed over was no program, a file could not
-- be opened, or a limit of the machine was met.

namespace TernLang

-- Why a file cannot be opened.
inductive Obstacle where
  | missing
  -- Something that is no directory stands where the name asks for one.
  | notDirectory
  -- A directory stands where a file is asked for.
  | isDirectory
  | nameTooLong
  -- A name that no file can have.
  | invalidName
deriving DecidableEq, Repr

inductive Fault where
  -- A node of this type has no value.
  | noValue (type : String)
  -- A comparison by an operator that is none.
  | unknownComparison (op : Tree)
  -- The text of a number that cannot be read, or an integer text with too many digits.
  | unreadableNumber
  -- A number that is too large to be converted.
  | boundlessNumber
  -- Something that lacks the part asked for, such as the body of a program to be run.
  | missingPart
  -- Data of a type that cannot be used in its place, such as a number for a list.
  | wrongData
  -- A text that takes more of the stack than there is: that of data that is no value, which has no
  -- end, or that of a document in which too much stands inside each other.
  | endlessText
  -- A text with half a character in it.
  | halfCharacter
  -- A stack without a single frame.
  | noStack
  -- A stack with more frames than can be counted.
  | boundlessStack
  | unopened (obstacle : Obstacle)
deriving DecidableEq

inductive Failure where
  | error (e : Error)
  | fault (f : Fault)
deriving DecidableEq

namespace Failure

-- An error that has no place yet.
def ofCause (cause : Error.Cause) : Failure := error ⟨cause, .unknown⟩

-- Attaches a place to an error that has none yet.
def locate (place : Place) : Failure → Failure
  | error e => error (e.locate place)
  | fault f => fault f

end Failure

end TernLang
