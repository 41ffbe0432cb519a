import Packaging.Descriptor.Read

/-! From a descriptor to a document that reads as the same descriptor. Every setting is written,
also one without a value, under the title of its section. -/

namespace Packaging

/-- Whether each setting comes with its help. -/
inductive Layout where
  | verbose
  | minimal
deriving DecidableEq

/-- A value as it is laid out in a document. -/
inductive Written where
  | line (t : Text)
  | list (items : List Text)

namespace Written

/-- A value that would lose the quotes around it gets another pair. -/
def quoted (t : Text) : Text :=
  match t with
  | q :: r =>
    if r.getLast? = some q then
      if q = '"' then '\'' :: t ++ ['\'']
      else if q = '\'' then '"' :: t ++ ['"']
      else t
    else t
  | [] => t

def entryLine (key value : Text) : Text := key ++ ' ' :: '=' :: ' ' :: value ++ ['\n']

/-- An item in a block stands on a line of its own, four spaces in. An empty item is an empty
line. -/
def itemLine (t : Text) : Text :=
  if t.isEmpty then ['\n'] else ' ' :: ' ' :: ' ' :: ' ' :: t ++ ['\n']

def block (key : Text) (items : List Text) : Text :=
  entryLine key Document.blockMark ++ items.flatMap itemLine ++ Document.blockMark ++ ['\n']

/-- The lines of an entry. A single item stays on one line unless it would be cut there. -/
def entry (key : Text) : Written → Text
  | .line t => entryLine key (quoted t)
  | .list [] => entryLine key []
  | .list [t] => if t.contains ';' then block key [t] else entryLine key (quoted t)
  | .list items => block key items

end Written

/-- The path from `base` if it is there or below, else the path itself. -/
def Path.seenFrom (base p : Path) : Text := ((p.relativeTo? base).getD p).text

def PathValue.written (base : Path) : PathValue → Text
  | .unset => []
  | .disabled => disabledWord
  | .resolved p => Path.seenFrom base p

def Kind.written (base : Path) : (k : Kind) → k.Value → Written
  | .required _, v => .line v
  | .optional _, v => .line (v.getD [])
  | .defaulted _ _, v => .line v
  | .version, v => .line v.written
  | .flag _, v => .line (Text.ofBool v)
  | .path, v => .line (v.written base)
  | .directory _, p => .line (Path.seenFrom base p)
  | .paths, ps => .list (ps.map (Path.seenFrom base))
  | .items _, v => .list v
  | .paragraphs, v => .list v

namespace Layout

def rule : Text := List.replicate 40 '#' ++ ['\n']

def commentLine (t : Text) : Text := '#' :: ' ' :: t ++ ['\n']

def heading (sec : Section) : Text :=
  rule ++ commentLine sec.title.toList ++ rule ++ ['\n']

def helpLines (s : Setting) : Text :=
  s.declaration.help.flatMap fun t => commentLine t.toList

/-- One setting with what surrounds it. -/
def setting (layout : Layout) (s : Setting) (entry : Text) : Text :=
  match layout with
  | .verbose => helpLines s ++ entry ++ ['\n']
  | .minimal => entry

def sectionEnd : Layout → Text
  | .verbose => []
  | .minimal => ['\n']

end Layout

namespace Descriptor

def entryText (d : Descriptor) (s : Setting) : Text :=
  (s.kind.written d.base (d.value s)).entry s.key

def sectionText (d : Descriptor) (layout : Layout) (sec : Section) : Text :=
  Layout.heading sec ++ sec.settings.flatMap (fun s => layout.setting s (d.entryText s)) ++
    layout.sectionEnd

/-- The document of a descriptor. -/
def write (d : Descriptor) (layout : Layout) : Text :=
  Text.trimEnd (Section.all.flatMap (d.sectionText layout)) ++ ['\n']

end Descriptor

end Packaging
