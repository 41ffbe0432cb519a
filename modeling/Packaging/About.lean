import Packaging.Text.Basic

/-! What the library says of itself. -/

namespace Packaging

/-- The version of this library. -/
def libraryVersion : Text := "0.1.0".toList

end Packaging
