import Packaging.Setting

/-! The descriptor of an application: a value for every setting, the directory that its relative
paths start from, and the keys of its document that no setting has. -/

namespace Packaging

structure Descriptor where
  base : Path
  value : (s : Setting) → s.Value
  unknown : List Text

/-- Equality of values, where paths count by their components. -/
def Kind.agrees : (k : Kind) → k.Value → k.Value → Bool
  | .required _, v, w => v == w
  | .optional _, v, w => v == w
  | .defaulted _ _, v, w => v == w
  | .version, v, w => v == w
  | .flag _, v, w => v == w
  | .path, .resolved p, .resolved q => p.agrees q
  | .path, v, w => v == w
  | .directory _, p, q => p.agrees q
  | .paths, ps, qs => ps.map Path.components == qs.map Path.components
  | .items _, v, w => v == w
  | .paragraphs, v, w => v == w

namespace Descriptor

/-- The two descriptors agree in every setting. -/
def agreesOn (d e : Descriptor) (s : Setting) : Bool := s.kind.agrees (d.value s) (e.value s)

def agrees (d e : Descriptor) : Bool :=
  d.base.agrees e.base && Setting.all.all (d.agreesOn e) && d.unknown == e.unknown

def version (d : Descriptor) : Version := d.value .appVersionRelease

/-- The package is named after the application unless it has a name of its own. -/
def packageName (d : Descriptor) : Text :=
  (d.value .packageName : Option Text).getD (d.value .appBaseName)

end Descriptor

end Packaging
