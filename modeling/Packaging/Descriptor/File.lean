import Packaging.Descriptor.Read

/-! Descriptors in files. A document is named after its file, and the descriptor's paths start
from the directory that the file is in. -/

namespace Packaging

/-- The document in a file. -/
def Document.ofFile (tree : FileTree) (p : Path) : Except Fault Document :=
  match tree.read p with
  | .error e => .error (.file e)
  | .ok t =>
    let name := p.fileName?.getD p.text
    (Document.ofText name t).mapError (.line name)

/-- The descriptor in a file. A relative path is taken from the current directory first. -/
def Descriptor.ofFile (tree : FileTree) (p : Path) (check : PathCheck) : Except Fault Descriptor :=
  if p.text.isEmpty then .error (.file .emptyPath)
  else do
    let p := Path.absolute tree.cwdPath p
    let doc ← Document.ofFile tree p
    ofDocument doc (p.parent?.getD ⟨['/']⟩) check

end Packaging
