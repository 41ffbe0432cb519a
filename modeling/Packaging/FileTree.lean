import Packaging.Path

/-! A file system as a value: which paths name directories, which name files with what bytes, and
the directory that relative paths start from. Paths are followed step by step, so every directory
on the way has to exist, also one that a `..` leaves again. -/

namespace Packaging

/-- Why a file could not be read. -/
inductive FileFault where
  | notFound
  | isDirectory
  | notDirectory
  | tooLong
  | zeroByte
  | notText
  | emptyPath
deriving DecidableEq

def FileFault.message : FileFault → Text
  | .notFound => "No such file or directory (os error 2)".toList
  | .isDirectory => "Is a directory (os error 21)".toList
  | .notDirectory => "Not a directory (os error 20)".toList
  | .tooLong => "File name too long (os error 36)".toList
  | .zeroByte => "file name contained an unexpected NUL byte".toList
  | .notText => "stream did not contain valid UTF-8".toList
  | .emptyPath => "cannot make an empty path absolute".toList

inductive FileNode where
  | directory
  | file (content : ByteArray)

/-- A place is the list of the names that lead to it from the root. -/
structure FileTree where
  nodes : List (List Text × FileNode)
  cwd : List Text

namespace FileTree

/-- The root alone. -/
def empty : FileTree := ⟨[], []⟩

def node? (tree : FileTree) (place : List Text) : Option FileNode :=
  if place.isEmpty then some .directory
  else (tree.nodes.find? (·.1 == place)).map (·.2)

def cwdPath (tree : FileTree) : Path := ⟨'/' :: List.intercalate ['/'] tree.cwd⟩

/-- Makes a place and everything above it a directory. -/
def addDirectory (tree : FileTree) (place : List Text) : FileTree :=
  let above := (List.range place.length).map fun n => (place.take (n + 1), FileNode.directory)
  { tree with nodes := above.filter (fun n => (tree.node? n.1).isNone) ++ tree.nodes }

def addFile (tree : FileTree) (place : List Text) (content : ByteArray) : FileTree :=
  let tree := tree.addDirectory place.dropLast
  { tree with nodes := (place, .file content) :: tree.nodes }

/-- A name with more bytes leads nowhere. -/
def maxNameBytes : Nat := 255

/-- A path with more bytes leads nowhere, however short its normal form is. -/
def maxPathBytes : Nat := 4095

/-- Follows the segments of a path from a place. A segment, even an empty one, can only follow a
directory. -/
def follow (tree : FileTree) : List Text → List Text → Except FileFault (List Text)
  | place, [] => .ok place
  | place, s :: segs =>
    match tree.node? place with
    | none => .error .notFound
    | some (.file _) => .error .notDirectory
    | some .directory =>
      match Component.ofSegment? s with
      | some .up => follow tree place.dropLast segs
      | some (.name n) =>
        if maxNameBytes < Text.byteLength n then .error .tooLong
        else if (tree.node? (place ++ [n])).isSome then follow tree (place ++ [n]) segs
        else .error .notFound
      | _ => follow tree place segs

def locate (tree : FileTree) (p : Path) : Except FileFault (List Text) :=
  if p.text.contains '\x00' then .error .zeroByte
  else if p.text.isEmpty then .error .notFound
  else if maxPathBytes < Text.byteLength p.text then .error .tooLong
  else tree.follow (if p.isAbsolute then [] else tree.cwd) (Text.cutAt (· == '/') p.text)

/-- A file or a directory stands there. -/
def isPresent (tree : FileTree) (p : Path) : Bool := (tree.locate p).toOption.isSome

def read (tree : FileTree) (p : Path) : Except FileFault Text := do
  let place ← tree.locate p
  match tree.node? place with
  | none => .error .notFound
  | some .directory => .error .isDirectory
  | some (.file content) =>
    match String.fromUTF8? content with
    | some s => .ok s.toList
    | none => .error .notText

end FileTree

end Packaging
