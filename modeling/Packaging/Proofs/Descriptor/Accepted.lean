import Packaging.Proofs.Descriptor.RoundTrip
import Packaging.Proofs.Path.Normal
import Packaging.Proofs.Version

/-! What holds of every accepted descriptor, whatever its document: each text keeps to its line and
to the characters of its setting, lists and paragraphs are in their normal form, the parts of the
version make up what was written, and the base is a normal path. -/

namespace Packaging

open Text (Trimmed Paragraphs)

/-! ## Texts -/

namespace Setting

/-- The settings that every document has to give a text for. -/
def mandatory : List Setting :=
  [appBaseName, appFriendlyName, appId, appVersionRelease, appShortSummary, appLicenseId,
    publisherName]

/-- What the text of a setting may be made of, if it has a text on one line. -/
def textClass? : Setting → Option CharClass
  | appShortSummary => some .free
  | appFriendlyName | appLicenseId | publisherName | publisherCopyright | publisherLinkName
  | dotnetPublishArgs | appImageArgs | setupGroupName | setupCommandPrompt | setupSignTool =>
    some .safe
  | appBaseName | appId | appVersionRelease | publisherId | publisherLinkUrl | publisherEmail
  | startCommand | primeCategory | flatpakPlatformRuntime | flatpakPlatformSdk
  | flatpakPlatformVersion | setupMinWindowsVersion | setupSuffixOutput => some .oneWord
  | packageName => some .strict
  | _ => none

end Setting

namespace Kind

/-- The text of a value on one line, if there is one. -/
def text? : (k : Kind) → k.Value → Option Text
  | .required _, t => some t
  | .optional _, o => o
  | .defaulted _ _, t => some t
  | .version, v => some v.written
  | _, _ => none

def textClass? : Kind → Option CharClass
  | .required cls => some cls
  | .optional cls => some cls
  | .defaulted cls _ => some cls
  | .version => some .oneWord
  | _ => none

theorem isLine_text {base : Path} {k : Kind} {v : k.Value} {cls : CharClass} {t : Text}
    (hv : k.Valid base v) (hd : k.DefaultValid) (hc : k.textClass? = some cls)
    (ht : k.text? v = some t) : IsLine cls t := by
  cases k with
  | required c =>
    obtain rfl := Option.some.inj hc
    rw [← Option.some.inj ht]
    exact hv
  | optional c =>
    obtain rfl := Option.some.inj hc
    exact hv t ht
  | defaulted c value =>
    obtain rfl := Option.some.inj hc
    rw [← Option.some.inj ht]
    exact isLine_of_defaulted hv hd
  | version =>
    obtain rfl := Option.some.inj hc
    rw [← Option.some.inj ht]
    exact hv.1
  | _ => cases hc

/-- The items of a list are safe, and each keeps the rule of the list. -/
theorem isLine_item {base : Path} {rule : ItemRule} {vs : List Text}
    (hv : (Kind.items rule).Valid base vs) {i : Text} (hi : i ∈ vs) :
    IsLine .safe i ∧ rule.start <+: i ∧ rule.part <:+: i :=
  ⟨hv.lines i hi, (readItem_eq_ok_iff.mp (hv.each i hi)).2.2⟩

end Kind

theorem Setting.kind_textClass? (s : Setting) : s.kind.textClass? = s.textClass? := by
  cases s <;> rfl

/-! ## Descriptors -/

namespace Descriptor

def text? (d : Descriptor) (s : Setting) : Option Text := s.kind.text? (d.value s)

/-- Nothing in the descriptor needs to be checked again. -/
structure WellFormed (d : Descriptor) : Prop where
  mandatory : ∀ s ∈ Setting.mandatory, (d.text? s).isSome = true
  texts : ∀ s cls, s.textClass? = some cls → ∀ t ∈ d.text? s, IsLine cls t
  requires : ∀ i ∈ (d.value .rpmRequires : List Text), IsLine .safe i
  recommends : ∀ i ∈ (d.value .debianRecommends : List Text), IsLine .safe i
  finishArgs : ∀ i ∈ (d.value .flatpakFinishArgs : List Text),
    IsLine .safe i ∧ ['-', '-'] <+: i ∧ '=' ∈ i
  builderArgs : ∀ i ∈ (d.value .flatpakBuilderArgs : List Text),
    IsLine .safe i ∧ ['-', '-'] <+: i
  description : ∀ l ∈ (d.value .appDescription : List Text), Trimmed l
  description_first : (d.value .appDescription : List Text).head? ≠ some []
  description_last : (d.value .appDescription : List Text).getLast? ≠ some []
  description_gaps : (d.value .appDescription : List Text).IsChain fun l m => l ≠ [] ∨ m ≠ []
  version : d.version.Exact
  base : ∃ (n : Nat) (names : List Text), d.base.components =
    (if d.base.isAbsolute then [.root] else []) ++ List.replicate n .up ++ names.map .name

theorem exact_version {base : Path} {v : Version} (h : Kind.version.Valid base v) : v.Exact :=
  Version.exact_of_ofText?
    (fun c hc => (CharClass.fault?_oneWord_eq_none_iff.mp h.1.accepted c hc).2) h.2

/-- Every descriptor that reading gives is well-formed. -/
theorem wellFormed_of_ofDocument {doc : Document} {base : Path} {check : PathCheck}
    {d : Descriptor} (h : ofDocument doc base check = .ok d) : d.WellFormed := by
  have hv := valid_of_ofDocument h
  have hbase : d.base = base.normal := (ofDocument_eq_ok_iff.mp h).1
  have hdescription : Paragraphs (d.value .appDescription) := hv .appDescription
  refine
    { mandatory := ?_
      texts := ?_
      requires := fun i hi => (Kind.isLine_item (hv .rpmRequires) hi).1
      recommends := fun i hi => (Kind.isLine_item (hv .debianRecommends) hi).1
      finishArgs := ?_
      builderArgs := ?_
      description := hdescription.trimmed
      description_first := hdescription.head
      description_last := hdescription.getLast?
      description_gaps := hdescription.squeezed.isChain
      version := exact_version (hv .appVersionRelease)
      base := ?_ }
  · intro s hs
    simp only [Setting.mandatory, List.mem_cons, List.not_mem_nil, or_false] at hs
    rcases hs with rfl | rfl | rfl | rfl | rfl | rfl | rfl <;> rfl
  · intro s cls hc t ht
    exact Kind.isLine_text (hv s) s.default_valid (s.kind_textClass?.trans hc) ht
  · intro i hi
    obtain ⟨hl, hs, hp⟩ := Kind.isLine_item (hv .flatpakFinishArgs) hi
    exact ⟨hl, hs, hp.subset (List.mem_singleton.mpr rfl)⟩
  · intro i hi
    obtain ⟨hl, hs, -⟩ := Kind.isLine_item (hv .flatpakBuilderArgs) hi
    exact ⟨hl, hs⟩
  · rw [hbase, Path.isAbsolute_normal]
    exact Path.exists_components_normal base

/-- Texts with blanks around them and inside, a release, paragraphs apart by several empty lines,
and lists in both forms. -/
def looseValues : List (Setting × Text) :=
  [(.appBaseName, "  App ".toList), (.appFriendlyName, "The\u2003App".toList),
   (.appId, "org.app".toList), (.appVersionRelease, "\t1.0[2]\r".toList),
   (.appShortSummary, "\"An\" <app>|".toList),
   (.appDescription, "\n \nFirst\n\n\t\n  second\r\n".toList), (.appLicenseId, "MIT".toList),
   (.publisherName, "Me".toList), (.packageName, "my-app".toList),
   (.flatpakFinishArgs, "--share=network;; --device=dri ".toList),
   (.flatpakBuilderArgs, "--a\n\n  --b;c".toList), (.rpmRequires, ";".toList)]

theorem wellFormed_of_ofDocument_looseValues :
    ∃ d, ofDocument (Document.ofValues looseValues) ⟨"../x/./y/../../..".toList⟩ .off = .ok d ∧
      d.WellFormed ∧ d.version = ⟨"1.0[2]".toList, "1.0".toList, "2".toList⟩ ∧
      d.value .appDescription = (["First".toList, [], "second".toList] : List Text) ∧
      d.value .flatpakBuilderArgs = (["--a".toList, "--b;c".toList] : List Text) ∧
      d.base.components = [.up, .up] := by
  obtain ⟨d, hd⟩ : ∃ d, ofDocument (Document.ofValues looseValues)
      ⟨"../x/./y/../../..".toList⟩ .off = .ok d := exists_ofValues (by decide +kernel)
  refine ⟨d, hd, wellFormed_of_ofDocument hd, value_ofValues hd (by decide +kernel),
    value_ofValues hd (by decide +kernel), value_ofValues hd (by decide +kernel), ?_⟩
  rw [(ofDocument_eq_ok_iff.mp hd).1]
  decide +kernel

end Descriptor

end Packaging
