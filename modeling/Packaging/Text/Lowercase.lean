import Packaging.Text.Basic
import Packaging.Text.CaseTables

/-! Full lower-casing. Each character is mapped on its own, but for the capital sigma: at the end
of a word it becomes the final form. -/

namespace Packaging.Text

def isCased (c : Char) : Bool := casedRanges.contains c

def isCaseIgnorable (c : Char) : Bool := caseIgnorableRanges.contains c

def CaseRun.covers (r : CaseRun) (n : Nat) : Bool :=
  r.first ≤ n && n ≤ r.last && (n - r.first) % r.step == 0

def lowerChar (c : Char) : Text :=
  if c.toNat < 0x80 then [c.toLower]
  else if c = '\u0130' then ['i', '\u0307']
  else match lowerRuns.find? (·.covers c.toNat) with
    | some r => [Char.ofNat (c.toNat + r.shift).toNat]
    | none => [c]

/-- A cased character comes first once the case-ignorable ones are passed. -/
def casedNext (t : Text) : Bool :=
  match t.dropWhile isCaseIgnorable with
  | c :: _ => isCased c
  | [] => false

/-- `before` holds the characters already passed, the nearest first. -/
def lowerAfter (before : Text) : Text → Text
  | [] => []
  | c :: r =>
    (if c = '\u03A3' then [if casedNext before && !casedNext r then '\u03C2' else '\u03C3']
     else lowerChar c) ++ lowerAfter (c :: before) r

def lower (t : Text) : Text := lowerAfter [] t

end Packaging.Text
