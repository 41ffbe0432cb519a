import Packaging.History.Basic
import Packaging.Calendar.Pattern

/-! Reading a release history. A release opens it to changes; a change runs on over the lines that
follow; any other line closes it until the next release. -/

namespace Packaging.History

/-- Longer versions are not versions. -/
def maxVersionLength : Nat := 25

/-- Drops the given sign and spaces from the start. -/
def stripSign (sign : Char) (t : Text) : Text :=
  Text.trim (t.dropWhile fun c => c == sign || c == ' ')

/-- A trimmed line that starts with one sign, not with two of them. -/
def hasSign (sign : Char) (line : Text) : Bool :=
  [sign].isPrefixOf line && !([sign, sign].isPrefixOf line)

/-- The version and date of a release line: the first and the last of its non-blank parts. -/
def release? (line : Text) : Option (Text × Calendar.Date) :=
  if !hasSign '+' line then none
  else match ((Text.cutAt (· == ';') line).map Text.trim).filter (!·.isEmpty) with
    | first :: second :: rest =>
      match Calendar.Date.ofText? ((second :: rest).getLast (by simp)) with
      | none => none
      | some date =>
        let version := stripSign '+' first
        if version.isEmpty || maxVersionLength < version.length then none
        else some (version, date)
    | _ => none

/-- Where the reading stands: outside any release, in one, or in a change that may run on. -/
inductive State where
  | outside
  | inside
  | change (t : Text)
deriving DecidableEq

namespace State

/-- The change that ends here. One without text is dropped. -/
def pending : State → List Record
  | .change t => if t.isEmpty then [] else [.change t]
  | _ => []

/-- Where a blank line leaves the reading. -/
def afterBlank : State → State
  | .change _ => .inside
  | st => st

end State

def runOn (t line : Text) : Text := if t.isEmpty then line else t ++ ' ' :: line

/-- What a line gives, and where the reading stands after it. -/
def step (st : State) (line : Text) : List Record × State :=
  let line := Text.trim line
  if line.isEmpty then (st.pending, st.afterBlank)
  else match release? line with
    | some (version, date) => (st.pending ++ [.release version date], .inside)
    | none =>
      match st with
      | .outside => ([], .outside)
      | .inside =>
        if hasSign '-' line then ([], .change (stripSign '-' line)) else ([], .outside)
      | .change t =>
        if hasSign '-' line then (st.pending, .change (stripSign '-' line))
        else ([], .change (runOn t line))

def readFrom (st : State) : List Text → List Record
  | [] => st.pending
  | l :: ls => (step st l).1 ++ readFrom (step st l).2 ls

def ofLines (ls : List Text) : History := ⟨readFrom .outside ls⟩

def ofText (t : Text) : History := ofLines (Text.lines t)

end Packaging.History
