import Packaging.Template.Piece

/-! Warnings about tokens that no variable answers to. Each message is kept once, in the order in
which they first came; whether one came before is looked up in the set of those that did. -/

namespace Packaging.Template

structure Warnings where
  messages : List Text
  /-- Tells of a message whether it came before. -/
  seen : Text → Bool

namespace Warnings

def empty : Warnings := ⟨[], fun _ => false⟩

/-- The message about a token, found in the given item if there is one. -/
def message (token : Text) (item : Option Text) : Text :=
  "Invalid macro ".toList ++ token ++
    match item with
    | some item => " in ".toList ++ item
    | none => []

/-- Adds the message if it did not come before, and tells whether it is new. -/
def add (w : Warnings) (m : Text) : Bool × Warnings :=
  if w.seen m then (false, w) else (true, ⟨w.messages ++ [m], fun n => n == m || w.seen n⟩)

/-- Adds the message about a token, and tells whether it is new. -/
def record (w : Warnings) (token : Text) (item : Option Text) : Bool × Warnings :=
  w.add (message token item)

end Warnings

/-- Writes a template out, with a warning for every token that is not one of a variable. -/
def expand (values : Values) (escape : Bool) (item : Option Text) (t : Text) (w : Warnings) :
    Text × Warnings :=
  let ps := pieces t
  (ps.flatMap (·.expand values escape),
    (ps.filterMap Piece.suspect?).foldl (fun w token => (w.record token item).2) w)

end Packaging.Template
