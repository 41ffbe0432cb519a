import Packaging.Text.Basic

/-! Values that hold several items: lists, one item a line or separated by semicolons, and
paragraphs, whose lines are kept with one empty line between neighbouring paragraphs. -/

namespace Packaging.Text

/-- A value with more than one line is cut at its line feeds, any other at its semicolons. -/
def items (t : Text) : List Text :=
  let sep := if t.contains '\n' then '\n' else ';'
  ((cutAt (· == sep) t).map trim).filter (!·.isEmpty)

/-- Drops the empty lines at the end and all but one of each other run of empty lines. -/
def squeeze : List Text → List Text
  | [] => []
  | [] :: ls =>
    match squeeze ls with
    | [] => []
    | [] :: rest => [] :: rest
    | rest => [] :: rest
  | l :: ls => l :: squeeze ls

def paragraphLines (t : Text) : List Text :=
  (squeeze ((lines t).map trim)).dropWhile (·.isEmpty)

end Packaging.Text
