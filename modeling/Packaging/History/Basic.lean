import Packaging.Calendar.Date
import Packaging.Markup.Escape

/-! The release history of an application: releases, each followed by its changes. It is written
as plain text, which can be read again, and as markup. -/

namespace Packaging

inductive Record where
  | release (version : Text) (date : Calendar.Date)
  | change (t : Text)
deriving DecidableEq

structure History where
  records : List Record
deriving DecidableEq

namespace Record

def isRelease : Record → Bool
  | .release _ _ => true
  | .change _ => false

def plain : Record → Text
  | .release version date => '+' :: ' ' :: version ++ ';' :: date.text ++ ['\n']
  | .change t => '-' :: ' ' :: t ++ ['\n']

end Record

namespace History

def releaseCount (h : History) : Nat := h.records.countP Record.isRelease

/-- Every record on a line of its own, with an empty line before each release but one that comes
first. -/
def plainAfter (begun : Bool) : List Record → Text
  | [] => []
  | r :: rs => (if begun && r.isRelease then ['\n'] else []) ++ r.plain ++ plainAfter true rs

def plain (h : History) : Text := plainAfter false h.records

/-- The end of a release element. -/
def releaseEnd : Text := "        </ul>\n    </description>\n</release>\n".toList

/-- An element for each release, the one that is open closed before the next. -/
def markupAfter (isOpen : Bool) : List Record → Text
  | [] => if isOpen then releaseEnd else []
  | .release version date :: rs =>
    (if isOpen then releaseEnd else []) ++
      "<release version=\"".toList ++ Markup.escape version ++ "\" date=\"".toList ++ date.text ++
      "\">\n    <description>\n        <ul>\n".toList ++ markupAfter true rs
  | .change t :: rs =>
    "            <li>".toList ++ Markup.escape t ++ "</li>\n".toList ++ markupAfter isOpen rs

def markup (h : History) : Text := Text.trimEnd (markupAfter false h.records)

end History

end Packaging
