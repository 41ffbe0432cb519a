import Packaging.Text.Basic

/-! Slash-separated paths. A path keeps its text as written; two paths name the same place when
their components agree, so repeated slashes, a slash at the end and most dots do not count. -/

namespace Packaging

structure Path where
  text : Text
deriving DecidableEq

/-- A step of a path. `here` comes only at the start. -/
inductive Component where
  | root
  | here
  | up
  | name (n : Text)
deriving DecidableEq

namespace Component

def text : Component → Text
  | .root => ['/']
  | .here => ['.']
  | .up => ['.', '.']
  | .name n => n

/-- An empty segment and a dot lead nowhere. -/
def ofSegment? (s : Text) : Option Component :=
  if s = [] || s = ['.'] then none
  else if s = ['.', '.'] then some .up
  else some (.name s)

end Component

namespace Path

def isAbsolute (p : Path) : Bool := p.text.head? == some '/'

/-- How the path starts, if that is a component of its own, and the segments after it. A dot counts
as a component only here. -/
def parts (p : Path) : Option Component × List Text :=
  match Text.cutAt (· == '/') p.text with
  | [] => (none, [])
  | [[]] => (none, [])
  | [] :: segs => (some .root, segs)
  | ['.'] :: segs => (some .here, segs)
  | segs => (none, segs)

def components (p : Path) : List Component :=
  p.parts.1.toList ++ p.parts.2.filterMap Component.ofSegment?

/-- The two paths have the same components. -/
def agrees (p q : Path) : Bool := p.components == q.components

/-- `q` seen from `p`. An absolute `q` stays as it is. -/
def join (p q : Path) : Path :=
  if q.isAbsolute then q
  else if p.text.isEmpty || p.text.getLast? == some '/' then ⟨p.text ++ q.text⟩
  else ⟨p.text ++ '/' :: q.text⟩

def ofComponents (cs : List Component) : Path :=
  cs.foldl (fun p c => p.join ⟨c.text⟩) ⟨[]⟩

/-- One more component on a stack whose top comes first. Only a name can be stepped back from. -/
def push : List Component → Component → List Component
  | st, .here => st
  | .name _ :: st, .up => st
  | st, c => c :: st

/-- The path without dots, each `..` taken back to the name before it where there is one. -/
def normal (p : Path) : Path := ofComponents (p.components.foldl push []).reverse

def isHole (seg : Text) : Bool := (Component.ofSegment? seg).isNone

def dropLastHoles (segs : List Text) : List Text := (segs.reverse.dropWhile isHole).reverse

/-- The segments left after passing the components `cs`, if the segments start with them. -/
def pass? : List Component → List Text → Option (List Text)
  | [], segs => some segs
  | _ :: _, [] => none
  | c :: cs, s :: segs =>
    match Component.ofSegment? s with
    | none => pass? (c :: cs) segs
    | some d => if c = d then pass? cs segs else none

def ofParts (lead : Option Component) (segs : List Text) : Path :=
  let body := List.intercalate ['/'] segs
  match lead with
  | some .root => ⟨'/' :: body⟩
  | some c => ⟨if segs.isEmpty then c.text else c.text ++ '/' :: body⟩
  | none => ⟨body⟩

/-- The path as seen from `base`, if it leads there or below: the rest of its text without what
leads nowhere at either end. -/
def relativeTo? (p base : Path) : Option Path :=
  match base.components with
  | [] => some (ofParts p.parts.1 (dropLastHoles p.parts.2))
  | c :: cs =>
    let rest :=
      match p.parts.1 with
      | some d => if c = d then pass? cs p.parts.2 else none
      | none => pass? (c :: cs) p.parts.2
    rest.map fun segs => ofParts none (dropLastHoles (segs.dropWhile isHole))

/-- The path less its last component. A root has no parent. -/
def parent? (p : Path) : Option Path :=
  match (p.parts.2.reverse.dropWhile isHole) with
  | _ :: segs => some (ofParts p.parts.1 (segs.dropWhile isHole).reverse)
  | [] => if p.parts.1 = some .here then some ⟨[]⟩ else none

/-- The last component, if it is a name. -/
def fileName? (p : Path) : Option Text :=
  match p.components.getLast? with
  | some (.name n) => some n
  | _ => none

/-- The path seen from the root, with every `..` kept, exactly two slashes at the start kept, and a
slash at the end kept. -/
def absolute (cwd p : Path) : Path :=
  let cs := if p.components.head? = some .here then p.components.tail else p.components
  let doubled := ['/', '/'].isPrefixOf p.text && !(['/', '/', '/'].isPrefixOf p.text)
  let q :=
    if !p.isAbsolute then cs.foldl (fun p c => p.join ⟨c.text⟩) cwd
    else if doubled then cs.tail.foldl (fun p c => p.join ⟨c.text⟩) ⟨['/', '/']⟩
    else ofComponents cs
  if p.text.getLast? = some '/' then q.join ⟨[]⟩ else q

end Path

end Packaging
