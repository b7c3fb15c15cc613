import TernLang.Failure
import TernLang.Scope.Frame
import TernLang.Text.Lowercase

-- Names as a document gives them. Only a text can be bound, and nothing else ever is, so that other
-- data is looked up in vain.

namespace TernLang

namespace Name

-- Texts with an upper-case character, and without one that is lower-case or title-case. Characters
-- without case may stand among them.
def isCapitals (s : String) : Bool :=
  s.toList.any Text.isUppercase && !s.toList.any fun c => Text.isLowercase c || Text.isTitlecase c

-- Whether all items of a list are in capitals. The first that is not decides; what is no text
-- cannot be asked.
def areCapitals : List Tree → Except Failure Bool
  | [] => .ok true
  | .str s :: items => if isCapitals s then areCapitals items else .ok false
  | _ :: _ => .error (.fault .missingPart)

-- Whether a name is that of a constant. The items of a list are asked as the characters of a text
-- are.
def isConstant : Tree → Except Failure Bool
  | .str s => .ok (isConstantName s)
  | .list items => areCapitals items
  | _ => .error (.fault .wrongData)

-- The text of a name that is to be bound.
def bindable : Tree → Except Failure String
  | .str s => .ok s
  | name => do
    discard (isConstant name)
    .error (.fault .wrongData)

-- What a name is bound to, where `find` finds that for a text.
def lookup {α : Type} (find : String → Option α) (name : Tree) : Except Failure α :=
  if name.isKey then
    match name.text?.bind find with
    | some a => .ok a
    | none => .error (.ofCause (.undefinedName name.shown))
  else .error (.fault .wrongData)

theorem lookup_str_of_some {α : Type} {find : String → Option α} {s : String} {a : α}
    (h : find s = some a) : lookup find (.str s) = .ok a := by
  simp [lookup, Tree.isKey, Tree.text?, h]

theorem lookup_str_of_none {α : Type} {find : String → Option α} {s : String}
    (h : find s = none) : lookup find (.str s) = .error (.ofCause (.undefinedName s)) := by
  simp [lookup, Tree.isKey, Tree.text?, h]

end Name

end TernLang
