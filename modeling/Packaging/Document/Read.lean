import Packaging.Document.Basic

/-! Reading a document. Its lines are cut, from the first to the last, into items: lines to skip,
entries on one line, and blocks that run to the next block mark. The entries of the items make up
the document if no key comes twice. -/

namespace Packaging.Document

/-- Opens and closes a value of several lines. -/
def blockMark : Text := ['"', '"', '"']

/-- A value without one pair of equal quotes around it. -/
def unquoted (v : Text) : Text :=
  match v with
  | q :: r => if (q = '"' || q = '\'') && r.getLast? = some q then r.dropLast else v
  | [] => v

/-- What one line is by itself. -/
inductive LineKind where
  | skipped
  | faulty (fault : LineFault)
  | entry (key value : Text)
  | opening (key first : Text)
deriving DecidableEq

namespace LineKind

def isComment (line : Text) : Bool := ['#'].isPrefixOf line || ['/', '/'].isPrefixOf line

/-- A value that starts with a block mark is over if the mark occurs once more on the line. -/
def ofValue (key value : Text) : LineKind :=
  match Text.after? blockMark value with
  | none => .entry key (unquoted value)
  | some first =>
    match Text.before? blockMark first with
    | some t => .entry key (Text.trim t)
    | none => .opening key first

def ofLine (line : Text) : LineKind :=
  let line := Text.trim line
  if line.isEmpty || isComment line then .skipped
  else match Text.splitFirst? '=' line with
    | none => .faulty (.noEntry line)
    | some (key, value) =>
      let key := Text.trim key
      if key.isEmpty then .faulty .missingKey else ofValue key (Text.trim value)

end LineKind

/-- The lines up to the first with a block mark, of that one only what stands before the mark, and
the lines after it. -/
def cutBlock : List Text → Option (List Text × List Text)
  | [] => none
  | l :: ls =>
    match Text.before? blockMark l with
    | some t => some ([t], ls)
    | none => (cutBlock ls).map fun r => (l :: r.1, r.2)

theorem cutBlock_length {ls body rest : List Text} (h : cutBlock ls = some (body, rest)) :
    body.length + rest.length = ls.length := by
  induction ls generalizing body rest with
  | nil => simp [cutBlock] at h
  | cons l ls ih =>
    simp only [cutBlock] at h
    split at h
    · obtain ⟨rfl, rfl⟩ := Prod.mk.inj (Option.some.inj h)
      simp [Nat.add_comm]
    · obtain ⟨r, hr, he⟩ := Option.map_eq_some_iff.mp h
      obtain ⟨rfl, rfl⟩ := Prod.mk.inj he
      simp only [List.length_cons, ← ih hr]
      omega

/-- The entries of the lines, the first of which is line `n`, and the fault that ends them if there
is one. -/
def scan (n : Nat) : List Text → List Entry × Option LineError
  | [] => ([], none)
  | l :: ls =>
    match LineKind.ofLine l with
    | .skipped => scan (n + 1) ls
    | .faulty fault => ([], some ⟨n, fault⟩)
    | .entry key value =>
      let after := scan (n + 1) ls
      (⟨key, value, n⟩ :: after.1, after.2)
    | .opening key first =>
      match h : cutBlock ls with
      | none => ([], some ⟨n, .unclosedBlock⟩)
      | some (body, rest) =>
        have := cutBlock_length h
        let after := scan (n + 1 + body.length) rest
        (⟨key, Text.trim (Text.unlines (first :: body)), n⟩ :: after.1, after.2)
termination_by ls => ls.length

/-- The first entry whose key was there before, as a fault of its line. `seen` holds the folded keys
that were there, with their lines. -/
def repeated? (seen : List (Text × Nat)) : List Entry → Option LineError
  | [] => none
  | e :: es =>
    let key := e.folded
    match seen.find? (·.1 == key) with
    | some first => some ⟨e.line, .repeatedKey e.key first.2⟩
    | none => repeated? ((key, e.line) :: seen) es

/-- A key that comes twice is found before any fault on a later line. -/
def ofLines (name : Text) (lines : List Text) : Except LineError Document :=
  let found := scan 1 lines
  match (repeated? [] found.1).or found.2 with
  | some e => .error e
  | none => .ok ⟨name, lines, found.1⟩

def ofText (name t : Text) : Except LineError Document := ofLines name (Text.lines t)

end Packaging.Document
