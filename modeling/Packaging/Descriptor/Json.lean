import Packaging.Descriptor.Basic
import Packaging.Json

/-! A descriptor as a JSON object: one member a section, in it one member a setting. The version
is followed by its two parts. -/

namespace Packaging

def PathValue.json : PathValue → Json
  | .unset => .object [("kind".toList, .text "unset".toList)]
  | .disabled => .object [("kind".toList, .text "disabled".toList)]
  | .resolved p =>
    .object [("kind".toList, .text "resolved".toList), ("path".toList, .text p.text)]

/-- The members that a value gives under its name. -/
def Kind.members (name : Text) : (k : Kind) → k.Value → List (Text × Json)
  | .required _, v => [(name, .text v)]
  | .optional _, v => [(name, .ofOption v)]
  | .defaulted _ _, v => [(name, .text v)]
  | .version, v =>
    [(name, .text v.written), ("version".toList, .text v.number),
      ("release".toList, .text v.release)]
  | .flag _, v => [(name, .flag v)]
  | .path, v => [(name, v.json)]
  | .directory _, p => [(name, .text p.text)]
  | .paths, ps => [(name, .list (ps.map fun p => .text p.text))]
  | .items _, v => [(name, .list (v.map .text))]
  | .paragraphs, v => [(name, .list (v.map .text))]

namespace Descriptor

def sectionJson (d : Descriptor) (sec : Section) : Json :=
  .object (sec.settings.flatMap fun s => s.kind.members s.declaration.member.toList (d.value s))

def json (d : Descriptor) : Json :=
  .object (("base_dir".toList, .text d.base.text) ::
    Section.all.map fun sec => (sec.member.toList, d.sectionJson sec))

end Descriptor

end Packaging
