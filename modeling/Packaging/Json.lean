import Packaging.Text.Basic

/-! JSON values as they are shown to people: two spaces for each level, one member or element a
line. -/

namespace Packaging

inductive Json where
  | null
  | flag (b : Bool)
  | text (t : Text)
  | list (items : List Json)
  | object (members : List (Text × Json))

namespace Json

/-- Only the quote, the backslash and what is below the space need an escape. -/
def escapeChar (c : Char) : Text :=
  if c = '"' || c = '\\' then ['\\', c]
  else if c = '\x08' then ['\\', 'b']
  else if c = '\x0c' then ['\\', 'f']
  else if c = '\n' then ['\\', 'n']
  else if c = '\r' then ['\\', 'r']
  else if c = '\t' then ['\\', 't']
  else if c.toNat < 0x20 then
    ['\\', 'u', '0', '0', if c.toNat < 0x10 then '0' else '1', (c.toNat % 16).digitChar]
  else [c]

def quoted (t : Text) : Text := '"' :: t.flatMap escapeChar ++ ['"']

def newline (depth : Nat) : Text := '\n' :: List.replicate (2 * depth) ' '

mutual

/-- The text of a value whose first line stands at `depth`. -/
def pretty (depth : Nat) : Json → Text
  | .null => "null".toList
  | .flag b => Text.ofBool b
  | .text t => quoted t
  | .list vs =>
    '[' :: prettyItems (depth + 1) vs ++ (if vs.isEmpty then [] else newline depth) ++ [']']
  | .object ms =>
    '\x7b' :: prettyMembers (depth + 1) ms ++ (if ms.isEmpty then [] else newline depth) ++ ['\x7d']

def prettyItems (depth : Nat) : List Json → Text
  | [] => []
  | [v] => newline depth ++ pretty depth v
  | v :: vs => newline depth ++ pretty depth v ++ ',' :: prettyItems depth vs

def prettyMembers (depth : Nat) : List (Text × Json) → Text
  | [] => []
  | [(k, v)] => newline depth ++ quoted k ++ ':' :: ' ' :: pretty depth v
  | (k, v) :: ms =>
    newline depth ++ quoted k ++ ':' :: ' ' :: pretty depth v ++ ',' :: prettyMembers depth ms

end

def ofOption (t : Option Text) : Json :=
  match t with
  | some t => .text t
  | none => .null

end Json

end Packaging
