import Packaging.Text.Lowercase

/-! A settings document: its lines, and the entries they hold in the order they were written. Keys
are compared in lower case, so at most one entry answers to a key. -/

namespace Packaging

/-- What is wrong with a line of a document. -/
inductive LineFault where
  | noEntry (line : Text)
  | missingKey
  | unclosedBlock
  | repeatedKey (key : Text) (firstLine : Nat)
deriving DecidableEq

def LineFault.message : LineFault → Text
  | .noEntry line => "syntax error: ".toList ++ line
  | .missingKey => "syntax error: missing key".toList
  | .unclosedBlock => "no multi-line termination".toList
  | .repeatedKey key firstLine =>
    "duplicate key ".toList ++ key ++ " (first defined on line ".toList ++
      Text.ofNat firstLine ++ [')']

/-- A fault with the number of its line, counted from 1. -/
structure LineError where
  line : Nat
  fault : LineFault
deriving DecidableEq

structure Entry where
  key : Text
  value : Text
  line : Nat
deriving DecidableEq

namespace Entry

/-- The form of the key in which keys are compared. -/
def folded (e : Entry) : Text := Text.lower e.key

end Entry

structure Document where
  name : Text
  lines : List Text
  entries : List Entry
deriving DecidableEq

namespace Document

def entry? (doc : Document) (key : Text) : Option Entry :=
  doc.entries.find? (·.folded == Text.lower key)

def get? (doc : Document) (key : Text) : Option Text := (doc.entry? key).map (·.value)

def contains (doc : Document) (key : Text) : Bool := (doc.entry? key).isSome

/-- The value without blanks around it, if anything is left of it. -/
def setting? (doc : Document) (key : Text) : Option Text :=
  ((doc.get? key).map Text.trim).filter (!·.isEmpty)

def verbatim (doc : Document) : Text := Text.unlines doc.lines

end Document

end Packaging
