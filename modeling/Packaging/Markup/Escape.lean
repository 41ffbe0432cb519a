import Packaging.Text.Basic

/-! Text inside markup. The five characters that markup gives a meaning to are written as
entities, so that reading the entities back gives the text. -/

namespace Packaging.Markup

/-- The entity that stands for a character, without the ampersand. -/
def entity? (c : Char) : Option Text :=
  if c = '&' then some "amp;".toList
  else if c = '<' then some "lt;".toList
  else if c = '>' then some "gt;".toList
  else if c = '"' then some "quot;".toList
  else if c = '\'' then some "apos;".toList
  else none

def escapeChar (c : Char) : Text :=
  match entity? c with
  | some e => '&' :: e
  | none => [c]

def escape (t : Text) : Text := t.flatMap escapeChar

end Packaging.Markup
