import Packaging.Text.Quoted

/-! Which characters the value of a setting may hold. Each class but the strict one is closed
under taking parts of the text. -/

namespace Packaging

/-- Any text, text without hazards, such text without blanks, and two or more letters, digits and
signs of a package name. -/
inductive CharClass where
  | free
  | safe
  | oneWord
  | strict
deriving DecidableEq

inductive CharFault where
  | forbidden (c : Char)
  | blank
  | tooShort
  | unlisted (c : Char)
deriving DecidableEq

def CharFault.message : CharFault → Text
  | .forbidden c => "invalid character ".toList ++ Text.quotedChar c
  | .blank => "spaces not allowed".toList
  | .tooShort => "must be at least 2 characters".toList
  | .unlisted c => "invalid character ".toList ++ Text.quotedChar c ++
      " (only letters, digits, '-', '+' and '.' allowed)".toList

namespace CharClass

/-- Control characters and those that command shells and file systems give a meaning to. -/
def isHazard (c : Char) : Bool :=
  Text.isControl c || ['*', '?', '"', '<', '>', '|'].contains c

def isStrict (c : Char) : Bool := c.isAlphanum || c == '-' || c == '+' || c == '.'

/-- The first fault of the text. -/
def fault? (cls : CharClass) (t : Text) : Option CharFault :=
  match cls with
  | .free => none
  | .safe => t.findSome? fun c => if isHazard c then some (.forbidden c) else none
  | .oneWord => t.findSome? fun c =>
      if isHazard c then some (.forbidden c)
      else if Text.isBlank c then some .blank
      else none
  | .strict =>
      if t.length < 2 then some .tooShort
      else (t.find? (!isStrict ·)).map .unlisted

def accepts (cls : CharClass) (t : Text) : Bool := (cls.fault? t).isNone

end CharClass

end Packaging
