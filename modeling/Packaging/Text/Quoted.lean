import Packaging.Text.Basic
import Packaging.Text.PrintTables

/-! A single character in quotes, for messages: whatever would be invisible, or would change how
its neighbours look, is written as an escape. -/

namespace Packaging.Text

def showsAlone (c : Char) : Bool :=
  !(extendingMarkRanges.contains c) && !(unprintableRanges.contains c)

def escapedChar (c : Char) : Text :=
  if c = '\t' then ['\\', 't']
  else if c = '\r' then ['\\', 'r']
  else if c = '\n' then ['\\', 'n']
  else if c.toNat = 0 then ['\\', '0']
  else if c = '\'' || c = '\\' then ['\\', c]
  else if showsAlone c then [c]
  else ['\\', 'u', '\x7b'] ++ Nat.toDigits 16 c.toNat ++ ['\x7d']

def quotedChar (c : Char) : Text := '\'' :: escapedChar c ++ ['\'']

end Packaging.Text
