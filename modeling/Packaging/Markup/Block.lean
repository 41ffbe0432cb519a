import Packaging.Markup.Escape

/-! Descriptions as markup. Neighbouring list lines form one list and other neighbouring lines one
paragraph; a blank line ends either. -/

namespace Packaging.Markup

/-- What a trimmed line of a description is. -/
inductive Line where
  | blank
  | item (t : Text)
  | words (t : Text)
deriving DecidableEq

inductive Block where
  | paragraph (lines : List Text)
  | bullets (items : List Text)
deriving DecidableEq

def bullets : List Text := [['*', ' '], ['-', ' '], ['+', ' ']]

namespace Line

def ofText (t : Text) : Line :=
  let t := Text.trim t
  if t.isEmpty then .blank
  else match bullets.findSome? (Text.after? · t) with
    | some rest => .item (Text.trim rest)
    | none => .words t

end Line

namespace Block

/-- `pending` is the block that the next line may still belong to. -/
def gather (pending : Option Block) : List Line → List Block
  | [] => pending.toList
  | .blank :: ls => pending.toList ++ gather none ls
  | .item t :: ls =>
    match pending with
    | some (.bullets ts) => gather (some (.bullets (ts ++ [t]))) ls
    | _ => pending.toList ++ gather (some (.bullets [t])) ls
  | .words t :: ls =>
    match pending with
    | some (.paragraph ts) => gather (some (.paragraph (ts ++ [t]))) ls
    | _ => pending.toList ++ gather (some (.paragraph [t])) ls

def ofLines (ls : List Text) : List Block := gather none (ls.map Line.ofText)

def markup : Block → Text
  | .paragraph ls =>
    "<p>".toList ++ escape (List.intercalate [' '] ls) ++ "</p>".toList
  | .bullets ts =>
    "<ul>\n".toList ++ ts.flatMap (fun t => "    <li>".toList ++ escape t ++ "</li>\n".toList) ++
      "</ul>".toList

end Block

/-- The markup of a description. -/
def ofDescription (ls : List Text) : Text :=
  Text.unlines ((Block.ofLines ls).map Block.markup)

end Packaging.Markup
