import Packaging.Text.Basic

/-! A version with an optional package release in brackets. Without brackets the release is 1. -/

namespace Packaging

structure Version where
  written : Text
  number : Text
  release : Text
deriving DecidableEq

namespace Version

def isBracket (c : Char) : Bool := c == '[' || c == ']'

/-- The number and the release. Blanks around either do not count, and neither may be blank. -/
def split? (t : Text) : Option (Text × Text) :=
  let t := Text.trim t
  match Text.splitFirst? '[' t with
  | none => if t.isEmpty || t.contains ']' then none else some (t, ['1'])
  | some (before, after) =>
    if after.getLast? = some ']' then
      let number := Text.trim before
      let release := Text.trim after.dropLast
      if number.isEmpty || release.isEmpty || release.any isBracket then none
      else some (number, release)
    else none

def ofText? (t : Text) : Option Version :=
  (split? t).map fun (number, release) => ⟨t, number, release⟩

end Version

end Packaging
