import Packaging.Markup.Escape
import Packaging.Template.Variable

/-! A template is cut into pieces by its text alone; values come in only when the pieces are
written out, so no value is ever read as part of a template. -/

namespace Packaging.Template

inductive Piece where
  | plain (c : Char)
  | known (v : Variable)
  /-- A closed token with a name that no variable has. -/
  | unknown (name : Text)
  /-- The opening of a token that is not closed before the next one opens, and the text up to
  there. -/
  | unclosed (tail : Text)
deriving DecidableEq

/-- The text up to the closing brace and the text after it, if no token opens before. -/
def body? : Text → Option (Text × Text)
  | [] => none
  | c :: r =>
    if c = '\x7d' then some ([], r)
    else if c = '$' && r.head? == some '\x7b' then none
    else (body? r).map fun p => (c :: p.1, p.2)

/-- The text up to the next opening of a token. -/
def beforeOpening : Text → Text
  | [] => []
  | c :: r => if c = '$' && r.head? == some '\x7b' then [] else c :: beforeOpening r

theorem body?_length {t name rest : Text} (h : body? t = some (name, rest)) :
    rest.length < t.length := by
  induction t generalizing name with
  | nil => simp [body?] at h
  | cons c r ih =>
    simp only [body?] at h
    split at h
    · obtain ⟨-, rfl⟩ := Prod.mk.inj (Option.some.inj h)
      simp
    · split at h
      · contradiction
      · obtain ⟨p, hb, he⟩ := Option.map_eq_some_iff.mp h
        obtain ⟨-, rfl⟩ := Prod.mk.inj he
        exact Nat.lt_succ_of_lt (ih hb)

def Piece.ofName (name : Text) : Piece :=
  match Variable.ofName? name with
  | some v => .known v
  | none => .unknown name

def pieces : Text → List Piece
  | [] => []
  | c :: t =>
    if c = '$' && t.head? == some '\x7b' then
      match h : body? t.tail with
      | some (name, rest) =>
        have := body?_length h
        .ofName name :: pieces rest
      | none => .unclosed (beforeOpening t.tail) :: pieces t.tail
    else .plain c :: pieces t
termination_by t => t.length
decreasing_by all_goals simp_all <;> omega

abbrev Values := Variable → Text

/-- What stands for a variable: its value, escaped unless it is markup. -/
def Values.shown (values : Values) (escape : Bool) (v : Variable) : Text :=
  if escape && !v.isMarkup then Markup.escape (values v) else values v

namespace Piece

/-- The text of the piece in the expanded template. -/
def expand (values : Values) (escape : Bool) : Piece → Text
  | .plain c => [c]
  | .known v => values.shown escape v
  | .unknown name => '$' :: '\x7b' :: name ++ ['\x7d']
  | .unclosed _ => ['$', '\x7b']

/-- At most this much is shown of what follows an opening that is never closed. -/
def shownTail : Nat := 16

/-- The token to warn of, if the piece is not what it seems. -/
def suspect? : Piece → Option Text
  | .plain _ => none
  | .known _ => none
  | .unknown name => some ('$' :: '\x7b' :: name ++ ['\x7d'])
  | .unclosed tail => some ('$' :: '\x7b' :: tail.take shownTail)

end Piece

end Packaging.Template
