import Packaging.Fault
import Packaging.History.Read

/-! Release histories in files. -/

namespace Packaging

/-- The release history in a file. -/
def History.ofFile (tree : FileTree) (p : Path) : Except Fault History :=
  ((tree.read p).map History.ofText).mapError .file

end Packaging
