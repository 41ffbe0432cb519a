import Packaging.Proofs.Descriptor.Survival

/-! Rewriting a document. From an absolute base whose text is safe, what was read can always be
written and read again, and each setting agrees exactly if its paths survive: nothing of them is
trimmed away, no step back is left in them below the base, and they are not taken for another
value. -/

namespace Packaging

open Kind (resolve)
open Packaging.Path (seenFrom Returns)
open Text (Trimmed)

/-! ## One path -/

namespace Path

/-- What is seen of the path is found as it was written, and if it is found from the base, where the
path is normalized on its way back, the path was normal before. -/
structure Survives (base p : Path) : Prop where
  trimmed : Trimmed (seenFrom base p)
  ne_nil : seenFrom base p ≠ []
  settled : base.components <+: p.components → p.normal.components = p.components

theorem survives_iff {base p : Path} :
    Survives base p ↔ Text.trim (seenFrom base p) = seenFrom base p ∧ seenFrom base p ≠ [] ∧
      (base.components <+: p.components → p.normal.components = p.components) :=
  ⟨fun h => ⟨h.trimmed.trim_eq, h.ne_nil, h.settled⟩,
    fun ⟨ht, hne, hs⟩ => ⟨Text.trimmed_iff.mpr ht, hne, hs⟩⟩

instance (base p : Path) : Decidable (Survives base p) := decidable_of_iff _ survives_iff.symm

theorem components_resolve_below {base p : Path} (hb : base.components ≠ [])
    (h : base.components <+: p.components) :
    (resolve base (seenFrom base p)).components = p.normal.components := by
  obtain ⟨-, ha, hc⟩ := seenFrom_below hb h
  rw [resolve_relative ha, components_normal, components_normal, stack_join ha, stack, stack, hc,
    List.foldl_append]

theorem returns_iff_survives {base p : Path} (hb : base.components ≠ [])
    (hp : p.isAbsolute = true) : Returns base p ↔ Survives base p := by
  constructor
  · intro h
    refine ⟨h.trimmed, h.ne_nil, fun hbelow => ?_⟩
    rw [← components_resolve_below hb hbelow]
    exact h.leads
  · intro h
    refine ⟨h.trimmed, h.ne_nil, ?_⟩
    by_cases hbelow : base.components <+: p.components
    · rw [components_resolve_below hb hbelow]
      exact h.settled hbelow
    · rw [seenFrom_outside hb hbelow, resolve_absolute hp]

theorem isAbsolute_resolve {base : Path} (t : Text) (h : base.isAbsolute = true) :
    (resolve base t).isAbsolute = true := by
  cases ha : isAbsolute ⟨t⟩ with
  | true => rwa [resolve_absolute ha]
  | false => rw [resolve_relative ha, isAbsolute_normal, isAbsolute_join _ h]

theorem components_ne_nil {p : Path} (h : p.isAbsolute = true) : p.components ≠ [] := by
  rw [components_absolute h]
  exact List.cons_ne_nil _ _

end Path

/-! ## One value -/

namespace Kind

/-- The paths of the value survive, and what is seen of them is taken neither for the word that
rules paths out nor for a list of several. -/
def Survives (base : Path) : (k : Kind) → k.Value → Prop
  | .path, .resolved p =>
      Path.Survives base p ∧ Text.sameLetters (seenFrom base p) disabledWord = false
  | .directory _, p =>
      Path.Survives base p ∧ Text.sameLetters (seenFrom base p) disabledWord = false
  | .paths, ps => ∀ p ∈ ps, Path.Survives base p ∧ (ps.length = 1 → ';' ∉ seenFrom base p)
  | _, _ => True

instance (base : Path) : (k : Kind) → DecidablePred (k.Survives base)
  | .path => fun v =>
    match v with
    | .resolved p => inferInstanceAs (Decidable (Path.Survives base p ∧
        Text.sameLetters (seenFrom base p) disabledWord = false))
    | .unset => inferInstanceAs (Decidable True)
    | .disabled => inferInstanceAs (Decidable True)
  | .directory _ => fun p => inferInstanceAs (Decidable (Path.Survives base p ∧
      Text.sameLetters (seenFrom base p) disabledWord = false))
  | .paths => fun ps => inferInstanceAs (Decidable (∀ p ∈ ps, Path.Survives base p ∧
      (ps.length = 1 → ';' ∉ seenFrom base p)))
  | .required _ | .optional _ | .defaulted _ _ | .version | .flag _ | .items _ | .paragraphs =>
    fun _ => inferInstanceAs (Decidable True)

theorem survives_of_not_hasPaths {base : Path} {k : Kind} {v : k.Value} (hk : ¬k.HasPaths) :
    k.Survives base v := by
  cases k with
  | path => exact absurd trivial hk
  | directory value => exact absurd trivial hk
  | paths => exact absurd trivial hk
  | _ => exact trivial

theorem faithful_iff_survives {base : Path} {k : Kind} {v : k.Value} (hb : base.components ≠ [])
    (habs : ∀ p ∈ k.pathsOf v, p.isAbsolute = true) : k.Faithful base v ↔ k.Survives base v := by
  cases k with
  | path =>
    cases v with
    | unset => exact ⟨fun _ => trivial, fun _ => nofun⟩
    | disabled => exact ⟨fun _ => trivial, fun _ => nofun⟩
    | resolved p =>
      have hp := Path.returns_iff_survives hb (habs p (List.mem_singleton.mpr rfl))
      rw [Survives, ← hp]
      refine ⟨fun h => h p rfl, fun h q hq => ?_⟩
      rwa [← PathValue.resolved.inj hq]
  | directory value =>
    rw [Survives, ← Path.returns_iff_survives hb (habs v (List.mem_singleton.mpr rfl))]
    exact Iff.rfl
  | paths =>
    have hp : ∀ p ∈ v, Returns base p ↔ Path.Survives base p := fun p hm =>
      Path.returns_iff_survives hb (habs p hm)
    constructor
    · rintro ⟨hr, hs⟩ p hm
      refine ⟨(hp p hm).mp (hr p hm), fun hl => hs p ?_⟩
      obtain ⟨q, rfl⟩ := List.length_eq_one_iff.mp hl
      rw [List.mem_singleton.mp hm]
    · intro h
      refine ⟨fun p hm => (hp p hm).mpr (h p hm).1, ?_⟩
      rintro p rfl
      exact (h p (List.mem_singleton.mpr rfl)).2 rfl
  | _ => exact Iff.rfl

/-- What holds of all that can be found from the base holds of the paths of a value that was
read. -/
theorem of_mem_pathsOf {base p : Path} {k : Kind} {v : k.Value} {P : Path → Prop}
    (hv : k.Valid base v) (hd : k.DefaultValid)
    (hresolve : ∀ t, IsLine .safe t → P (resolve base t))
    (hjoin : ∀ t, IsLine .safe t → P (base.join ⟨t⟩)) (hp : p ∈ k.pathsOf v) : P p := by
  have hfrom : ∀ q, IsFrom base q → P q := by
    rintro q ⟨t, ht, rfl⟩
    exact hresolve t ht
  cases k with
  | path =>
    cases v with
    | unset => cases hp
    | disabled => cases hp
    | resolved q =>
      rw [List.mem_singleton.mp hp]
      exact hfrom q (hv q rfl)
  | directory value =>
    rw [List.mem_singleton.mp hp]
    rcases hv with hv | hv
    · have hv : v = base.join value := hv
      rw [hv]
      exact hjoin value.text hd.1
    · exact hfrom v hv
  | paths => exact hfrom p (hv p hp)
  | _ => cases hp

theorem isAbsolute_of_mem_pathsOf {base p : Path} {k : Kind} {v : k.Value}
    (hb : base.isAbsolute = true) (hv : k.Valid base v) (hd : k.DefaultValid)
    (hp : p ∈ k.pathsOf v) : p.isAbsolute = true :=
  of_mem_pathsOf (P := fun p => p.isAbsolute = true) hv hd
    (fun t _ => Path.isAbsolute_resolve t hb) (fun t _ => Path.isAbsolute_join ⟨t⟩ hb) hp

theorem hazardless_of_mem_pathsOf {base p : Path} {k : Kind} {v : k.Value}
    (hb : Hazardless base.text) (hv : k.Valid base v) (hd : k.DefaultValid)
    (hp : p ∈ k.pathsOf v) : Hazardless (seenFrom base p) := by
  have hmem : ∀ {t : Text}, IsLine .safe t → ∀ {c : Char},
      c ∈ base.text ∨ c ∈ t ∨ c = '/' → CharClass.isHazard c = false := by
    rintro t ht c (hc | hc | rfl)
    · exact hb c hc
    · exact ht.hazardless hc
    · decide
  have htext : Hazardless p.text :=
    of_mem_pathsOf (P := fun p => Hazardless p.text) hv hd
      (fun t ht c hc => hmem ht (Path.mem_resolve hc)) (fun t ht c hc => hmem ht (Path.mem_join hc))
      hp
  intro c hc
  rcases Path.mem_seenFrom hc with hc | rfl
  · exact htext c hc
  · decide

end Kind

theorem Setting.default_deep (s : Setting) : s.kind.DefaultDeep := by
  cases s <;> first
    | exact trivial
    | exact (by decide : '/' ∈ "Deploy/OUT".toList)

/-! ## Every setting -/

theorem hazardless_normal {base : Path} (h : CharClass.fault? .safe base.text = none) :
    Hazardless base.normal.text := by
  intro c hc
  rcases Path.mem_normal hc with hc | rfl
  · exact CharClass.fault?_safe_eq_none_iff.mp h c hc
  · decide

namespace Descriptor

variable {doc : Document} {base : Path} {d : Descriptor}

/-- What was read from a base with a safe text can be written and read again if the free text has
no quotes. -/
theorem exists_rewrite (h : ofDocument doc base .off = .ok d)
    (hsafe : CharClass.fault? .safe base.text = none)
    (hsummary : '"' ∉ (d.value .appShortSummary : Text))
    (hdescription : ∀ l ∈ (d.value .appDescription : List Text), '"' ∉ l)
    (name : Text) (layout : Layout) :
    ∃ e, ofText name (d.write layout) d.base .off = .ok e ∧
      ∀ s : Setting, s.kind.read d.base .off (d.written s).found? = .ok (e.value s) := by
  obtain ⟨hbase, -, -⟩ := ofDocument_eq_ok_iff.mp h
  have hb : Hazardless d.base.text := by
    rw [hbase]
    exact hazardless_normal hsafe
  have hunmarked := unmarked (d := d) (fun hp => not_mark_of_quoteless hsummary hp.isInfix)
    fun l hl => not_mark_of_quoteless (hdescription l hl)
  have hvalue : ∀ s : Setting, (d.written s).Clean ∧
      ∃ w, s.kind.read d.base .off (d.written s).found? = .ok w := by
    intro s
    have hv := valid_of_ofDocument h s
    by_cases hk : s.kind.HasPaths
    · have hs : ∀ p ∈ s.kind.pathsOf (d.value s), Hazardless (seenFrom d.base p) := fun p hp =>
        Kind.hazardless_of_mem_pathsOf hb hv s.default_valid hp
      exact ⟨Kind.clean_paths hk hs, Kind.exists_read hk hs⟩
    · exact ⟨Kind.clean_written hk hv (hunmarked s) s.default_valid, d.value s,
        Kind.read_written hk hv s.default_valid⟩
  obtain ⟨f, hf⟩ := Classical.axiomOfChoice fun s => (hvalue s).2
  refine ⟨_, ofText_write_eq_ok ?_ (fun s => (hvalue s).1) hf name layout, hf⟩
  rw [hbase, Path.normal_normal]

/-- Reading what was written gives a descriptor that agrees with the one before in just those
settings whose paths survive. -/
theorem rewrite_agrees_iff_survives (h : ofDocument doc base .off = .ok d)
    (habs : base.isAbsolute = true) (hsafe : CharClass.fault? .safe base.text = none)
    (hsummary : '"' ∉ (d.value .appShortSummary : Text))
    (hdescription : ∀ l ∈ (d.value .appDescription : List Text), '"' ∉ l)
    (name : Text) (layout : Layout) :
    ∃ e, ofText name (d.write layout) d.base .off = .ok e ∧
      ∀ s : Setting, d.agreesOn e s = true ↔ s.kind.Survives d.base (d.value s) := by
  obtain ⟨e, he, hread⟩ := exists_rewrite h hsafe hsummary hdescription name layout
  obtain ⟨hbase, -, -⟩ := ofDocument_eq_ok_iff.mp h
  have hb : d.base.isAbsolute = true := by rw [hbase, Path.isAbsolute_normal, habs]
  have hcs := Path.components_ne_nil hb
  refine ⟨e, he, fun s => ?_⟩
  have hv := valid_of_ofDocument h s
  by_cases hk : s.kind.HasPaths
  · have hpaths : ∀ p ∈ s.kind.pathsOf (d.value s), p.isAbsolute = true := fun p hp =>
      Kind.isAbsolute_of_mem_pathsOf hb hv s.default_valid hp
    have hsafe' : ∀ p ∈ s.kind.pathsOf (d.value s), Hazardless (seenFrom d.base p) := by
      intro p hp
      refine Kind.hazardless_of_mem_pathsOf ?_ hv s.default_valid hp
      rw [hbase]
      exact hazardless_normal hsafe
    rw [← Kind.faithful_iff_survives hcs hpaths]
    exact Kind.agrees_iff_faithful hcs hk s.default_valid s.default_deep hpaths hsafe' (hread s)
  · have hsame := Kind.read_written hk hv s.default_valid
    have hval : e.value s = d.value s := Except.ok.inj ((hread s).symm.trans hsame)
    refine iff_of_true ?_ (Kind.survives_of_not_hasPaths hk)
    unfold agreesOn
    rw [hval]
    exact Kind.agrees_refl s.kind (d.value s)

/-- A file that is named like the word that rules paths out, and paths that survive: below the
base with dots, doubled slashes and a slash at the end, above it, and elsewhere. -/
def strayValues : List (Setting × Text) :=
  [(.appBaseName, "App".toList), (.appFriendlyName, "App".toList), (.appId, "org.app".toList),
   (.appVersionRelease, "1.0".toList), (.appShortSummary, "An app".toList),
   (.appLicenseId, "MIT".toList), (.publisherName, "Me".toList),
   (.appLicenseFile, "./NONE".toList), (.desktopFile, "x/..//b/".toList),
   (.iconFiles, "../a.png\n/base/b/./c.svg\n/etc/../d.png".toList)]

theorem exists_strayValues :
    ∃ d, ofDocument (Document.ofValues strayValues) ⟨"/base".toList⟩ .off = .ok d ∧
      d.base = ⟨"/base".toList⟩ ∧
      d.value .appLicenseFile = (.resolved ⟨"/base/NONE".toList⟩ : PathValue) ∧
      d.value .appShortSummary = "An app".toList ∧ d.value .appDescription = ([] : List Text) := by
  have hbase : Path.normal ⟨"/base".toList⟩ = ⟨"/base".toList⟩ := by decide +kernel
  obtain ⟨d, hd⟩ : ∃ d,
      ofDocument (Document.ofValues strayValues) ⟨"/base".toList⟩ .off = .ok d :=
    exists_ofValues (by decide +kernel)
  exact ⟨d, hd, (ofDocument_eq_ok_iff.mp hd).1.trans hbase, value_ofValues hd (by decide +kernel),
    value_ofValues hd (by decide +kernel), value_ofValues hd (by decide +kernel)⟩

theorem rewrite_agrees_iff_survives_strayValues :
    ∃ d e, ofDocument (Document.ofValues strayValues) ⟨"/base".toList⟩ .off = .ok d ∧
      ofText [] (d.write .minimal) d.base .off = .ok e ∧
      d.agreesOn e .appLicenseFile = false ∧ d.agreesOn e .desktopFile = true ∧
      d.agreesOn e .iconFiles = true := by
  obtain ⟨d, hd, hbase, hlicense, hsummary, hdescription⟩ := exists_strayValues
  obtain ⟨e, he, hag⟩ := rewrite_agrees_iff_survives hd rfl rfl
    (by rw [hsummary]; decide) (by rw [hdescription]; nofun) [] .minimal
  refine ⟨d, e, hd, he, ?_, (hag .desktopFile).mpr ?_, (hag .iconFiles).mpr ?_⟩
  · rw [Bool.eq_false_iff, ne_eq, hag .appLicenseFile, hlicense, hbase]
    decide +kernel
  · have hv : d.value .desktopFile = (.resolved ⟨"/base/b".toList⟩ : PathValue) :=
      value_ofValues hd (by decide +kernel)
    rw [hv, hbase]
    decide +kernel
  · have hv : d.value .iconFiles = ([⟨"/a.png".toList⟩, ⟨"/base/b/./c.svg".toList⟩,
        ⟨"/etc/../d.png".toList⟩] : List Path) := value_ofValues hd (by decide +kernel)
    rw [hv, hbase]
    decide +kernel

/-- The file is written as the word and read as a path that is ruled out. -/
theorem rewrite_loses_stray_file :
    ∃ d e, ofDocument (Document.ofValues strayValues) ⟨"/base".toList⟩ .off = .ok d ∧
      ofText [] (d.write .minimal) d.base .off = .ok e ∧
      d.value .appLicenseFile = (.resolved ⟨"/base/NONE".toList⟩ : PathValue) ∧
      e.value .appLicenseFile = (.disabled : PathValue) := by
  obtain ⟨d, hd, hbase, hlicense, hsummary, hdescription⟩ := exists_strayValues
  obtain ⟨e, he, hread⟩ := exists_rewrite hd rfl (by rw [hsummary]; decide)
    (by rw [hdescription]; nofun) [] .minimal
  refine ⟨d, e, hd, he, hlicense, ?_⟩
  have hr := hread .appLicenseFile
  unfold written at hr
  rw [hlicense, hbase] at hr
  exact Except.ok.inj (hr.symm.trans (by decide +kernel))

end Descriptor

end Packaging
