import Packaging.Proofs.Descriptor.PathValues

/-! Writing and reading back. A descriptor comes back from its document, in either layout, if its
free text does not hold the mark of a block and its paths were written plainly: by names below the
base, or as absolute paths elsewhere. -/

namespace Packaging

open Kind (resolve)
open Packaging.Path (seenFrom Returns)
open Text (Trimmed)

/-- A text that a path comes back from: the word that rules paths out, names between slashes, or an
absolute path that does not lead to the base or below. From a base without components every path
leads below, and an absolute one comes back if nothing of it is taken for a blank at its end. -/
inductive Path.Plain (base : Path) (t : Text) : Prop
  | disabled : Text.sameLetters t disabledWord = true → Plain base t
  | names : Path.IsNames t → Plain base t
  | outside : Path.isAbsolute ⟨t⟩ = true → ¬base.components <+: Path.components ⟨t⟩ → Plain base t
  | nowhere : Path.isAbsolute ⟨t⟩ = true → base.components = [] →
      Trimmed (seenFrom base ⟨t⟩) → Plain base t

theorem Path.plain_iff {base : Path} {t : Text} :
    Path.Plain base t ↔
      Text.sameLetters t disabledWord = true ∨ Path.IsNames t ∨
        Path.isAbsolute ⟨t⟩ = true ∧ (¬base.components <+: Path.components ⟨t⟩ ∨
          base.components = [] ∧ Text.trim (seenFrom base ⟨t⟩) = seenFrom base ⟨t⟩) := by
  constructor
  · intro h
    cases h with
    | disabled h => exact .inl h
    | names h => exact .inr (.inl h)
    | outside ha h => exact .inr (.inr ⟨ha, .inl h⟩)
    | nowhere ha hb h => exact .inr (.inr ⟨ha, .inr ⟨hb, h.trim_eq⟩⟩)
  · rintro (h | h | ⟨ha, h | ⟨hb, h⟩⟩)
    · exact .disabled h
    · exact .names h
    · exact .outside ha h
    · exact .nowhere ha hb (Text.trimmed_iff.mpr h)

instance (base : Path) : DecidablePred (Path.Plain base) := fun _ =>
  decidable_of_iff _ Path.plain_iff.symm

/-- The path texts of a value are plain. -/
def Kind.PlainText (base : Path) : Kind → Text → Prop
  | .path, t => Path.Plain base t
  | .directory _, t => Path.Plain base t
  | .paths, t => ∀ i ∈ Text.items t, Path.Plain base i
  | _, _ => True

instance (base : Path) : (k : Kind) → DecidablePred (k.PlainText base)
  | .path => inferInstanceAs (DecidablePred (Path.Plain base))
  | .directory _ => inferInstanceAs (DecidablePred (Path.Plain base))
  | .paths => fun t => inferInstanceAs (Decidable (∀ i ∈ Text.items t, Path.Plain base i))
  | .required _ | .optional _ | .defaulted _ _ | .version | .flag _ | .items _ | .paragraphs =>
    fun _ => inferInstanceAs (Decidable True)

/-! ## One path -/

/-- The path of a text comes back, and what is seen of it holds nothing that the text does not. -/
structure Path.Back (base p : Path) (t : Text) : Prop where
  returns : Returns base p
  hazardless : Hazardless (seenFrom base p)
  enabled : Text.sameLetters t disabledWord = false →
    Text.sameLetters (seenFrom base p) disabledWord = false
  whole : ';' ∉ t → ';' ∉ seenFrom base p

theorem Path.back_of_eq {base p : Path} {t : Text} (ht : IsLine .safe t)
    (h : seenFrom base p = t ∧ Returns base p) : Path.Back base p t := by
  obtain ⟨hs, hr⟩ := h
  refine ⟨hr, ?_, ?_, ?_⟩
  · rw [hs]
    exact fun c hc => ht.hazardless hc
  · rw [hs]
    exact id
  · rw [hs]
    exact id

theorem Path.back_of_names {base p : Path} {t : Text} (hb : base.normal = base)
    (ht : IsLine .safe t) (hn : Path.IsNames t) (hp : p = base.join ⟨t⟩ ∨ p = resolve base t) :
    Path.Back base p t := by
  obtain ⟨cs, hne, hcs, rfl⟩ := hn.exists_spelled
  exact Path.back_of_eq ht (Path.returns_of_names hb hcs hne ht.trimmed hp)

/-- The word that rules paths out could as well be a name. -/
theorem Path.isNames_of_disabled {t : Text} (ht : IsLine .safe t)
    (h : Text.sameLetters t disabledWord = true) : Path.IsNames t := by
  refine ⟨[t], List.cons_ne_nil t [], ?_, List.intercalate_singleton.symm⟩
  intro n hn
  rw [List.mem_singleton.mp hn]
  refine ⟨ht.ne_nil, ?_, ?_, slashless_of_disabled h⟩
  · intro he
    subst he
    exact absurd h (by decide)
  · intro hs
    subst hs
    exact absurd h (by decide)

theorem Path.back_of_plain {base : Path} {t : Text} (hb : base.normal = base)
    (ht : IsLine .safe t) (hp : Path.Plain base t) : Path.Back base (resolve base t) t := by
  cases hp with
  | disabled hd => exact Path.back_of_names hb ht (Path.isNames_of_disabled ht hd) (.inr rfl)
  | names hn => exact Path.back_of_names hb ht hn (.inr rfl)
  | outside ha hn =>
    have hbc : base.components ≠ [] := by
      intro he
      rw [he] at hn
      exact hn List.nil_prefix
    rw [Path.resolve_absolute ha]
    exact Path.back_of_eq ht (Path.returns_outside hbc hn ha ht.trimmed ht.ne_nil)
  | nowhere ha hbc hs =>
    rw [Path.resolve_absolute ha]
    have hmem : ∀ c ∈ seenFrom base ⟨t⟩, c ∈ t ∨ c = '/' := fun c hc => Path.mem_seenFrom hc
    refine ⟨Path.returns_nowhere hbc ha hs, ?_, ?_, ?_⟩
    · intro c hc
      rcases hmem c hc with hc | rfl
      · exact ht.hazardless hc
      · decide
    · intro _
      rw [Bool.eq_false_iff, ne_eq]
      intro hd
      have habs := Path.isAbsolute_iff.mp (Path.seenFrom_nowhere hbc ha).1
      exact slashless_of_disabled hd (List.mem_of_mem_head? habs)
    · intro hn hm
      rcases hmem _ hm with hm | hm
      · exact hn hm
      · cases hm

/-! ## One value -/

theorem Path.back_default {base value : Path} (hb : base.normal = base)
    (hd : (Kind.directory value).DefaultValid) :
    Hazardless (seenFrom base (base.join value)) ∧
      (Kind.directory value).Faithful base (base.join value) := by
  obtain ⟨hl, hn, hw⟩ := hd
  have h := Path.back_of_names hb hl hn (.inl rfl)
  exact ⟨h.hazardless, h.returns, h.enabled hw⟩

theorem Kind.faithful_of_plain {base : Path} {k : Kind} {o : Option Text} {v : k.Value}
    (hb : base.normal = base) (hk : k.HasPaths) (hd : k.DefaultValid)
    (ho : ∀ t, o = some t → Trimmed t ∧ t ≠ []) (hp : ∀ t, o = some t → k.PlainText base t)
    (hr : k.read base .off o = .ok v) :
    (∀ p ∈ k.pathsOf v, Hazardless (seenFrom base p)) ∧ k.Faithful base v := by
  cases o with
  | none =>
    cases k with
    | path => cases hr; exact ⟨nofun, nofun⟩
    | directory value =>
      cases hr
      obtain ⟨hs, hf⟩ := Path.back_default hb hd
      exact ⟨List.forall_mem_singleton.mpr hs, hf⟩
    | paths => cases hr; exact ⟨nofun, nofun, nofun⟩
    | _ => cases hk
  | some t =>
    obtain ⟨ht, hne⟩ := ho t rfl
    have hplain := hp t rfl
    cases k with
    | path =>
      obtain ⟨hl, rfl⟩ := readPath_eq_ok ht hne hr
      by_cases hw : Text.sameLetters t disabledWord = true
      · rw [if_pos hw]
        exact ⟨nofun, nofun⟩
      · rw [if_neg hw]
        have h := Path.back_of_plain hb hl hplain
        refine ⟨List.forall_mem_singleton.mpr h.hazardless, ?_⟩
        intro p hp
        rw [← PathValue.resolved.inj hp]
        exact ⟨h.returns, h.enabled (Bool.eq_false_iff.mpr hw)⟩
    | directory value =>
      obtain ⟨w, hw, rfl⟩ := map_eq_ok hr
      obtain ⟨hl, rfl⟩ := readPath_eq_ok ht hne hw
      by_cases hw : Text.sameLetters t disabledWord = true
      · rw [if_pos hw]
        obtain ⟨hs, hf⟩ := Path.back_default hb hd
        exact ⟨List.forall_mem_singleton.mpr hs, hf⟩
      · rw [if_neg hw]
        have h := Path.back_of_plain hb hl hplain
        exact ⟨List.forall_mem_singleton.mpr h.hazardless,
          h.returns, h.enabled (Bool.eq_false_iff.mpr hw)⟩
    | paths =>
      obtain ⟨rfl, hsafe⟩ := readPaths_eq_ok hr
      have hback : ∀ i ∈ Text.items t, Path.Back base (resolve base i) i := fun i hi =>
        Path.back_of_plain hb (isLine_of_mem_items hi (hsafe i hi)) (hplain i hi)
      refine ⟨?_, ?_, ?_⟩
      · intro p hm
        obtain ⟨i, hi, rfl⟩ := List.mem_map.mp hm
        exact (hback i hi).hazardless
      · intro p hm
        obtain ⟨i, hi, rfl⟩ := List.mem_map.mp hm
        exact (hback i hi).returns
      · intro p hm
        obtain ⟨i, hi, rfl⟩ := List.map_eq_singleton_iff.mp hm
        refine (hback i ?_).whole (Text.not_mem_of_items_singleton ht hi)
        rw [hi]
        exact List.mem_singleton.mpr rfl
    | _ => cases hk

/-! ## Every setting -/

namespace Descriptor

/-- A clean document reads as the values that its settings are read as. -/
theorem ofText_write_eq_ok {d : Descriptor} (hb : d.base.normal = d.base) (hc : d.Clean)
    {f : (s : Setting) → s.Value}
    (hf : ∀ s : Setting, s.kind.read d.base .off (d.written s).found? = .ok (f s)) (name : Text)
    (layout : Layout) : ofText name (d.write layout) d.base .off = .ok ⟨d.base, f, []⟩ := by
  obtain ⟨doc, hdoc, hset, hunknown⟩ := exists_document hc name layout
  unfold ofText
  rw [hdoc]
  refine ofDocument_eq_ok_iff.mpr ⟨hb.symm, hunknown.symm, fun s => ?_⟩
  unfold Setting.read
  rw [hset, hb]
  exact hf s

/-- Free text is found in the summary and the description only. -/
theorem unmarked {d : Descriptor}
    (hsummary : ¬Document.blockMark <+: (d.value .appShortSummary : Text))
    (hdescription : ∀ l ∈ (d.value .appDescription : List Text), ¬Document.blockMark <:+: l)
    (s : Setting) : s.kind.Unmarked (d.value s) := by
  cases s <;> first
    | exact trivial
    | exact fun _ => hsummary
    | exact hdescription
    | exact nofun

/-- Writing and reading back gives an equal descriptor, in either layout, for every document whose
free text holds no mark of a block and whose paths are plain. -/
theorem write_round_trip {doc : Document} {base : Path} {d : Descriptor}
    (h : ofDocument doc base .off = .ok d)
    (hsummary : ¬Document.blockMark <+: (d.value .appShortSummary : Text))
    (hdescription : ∀ l ∈ (d.value .appDescription : List Text), ¬Document.blockMark <:+: l)
    (hpaths : ∀ (s : Setting) t, doc.setting? s.key = some t → s.kind.PlainText d.base t)
    (name : Text) (layout : Layout) :
    ∃ e, ofText name (d.write layout) d.base .off = .ok e ∧
      agrees { d with unknown := [] } e = true := by
  obtain ⟨hbase, -, hread⟩ := ofDocument_eq_ok_iff.mp h
  have hb : d.base.normal = d.base := by rw [hbase, Path.normal_normal]
  rw [← hbase] at hread
  have hvalue : ∀ s : Setting, (d.written s).Clean ∧
      ∃ w, s.kind.read d.base .off (d.written s).found? = .ok w ∧
        s.kind.agrees (d.value s) w = true := by
    intro s
    have ho : ∀ t, doc.setting? s.key = some t → Trimmed t ∧ t ≠ [] := fun t =>
      Document.setting?_trimmed
    have hv := valid_of_ofDocument h s
    by_cases hk : s.kind.HasPaths
    · obtain ⟨hs, hf⟩ := Kind.faithful_of_plain hb hk s.default_valid ho (hpaths s) (hread s)
      exact ⟨Kind.clean_paths hk hs, Kind.read_faithful hk hs hf⟩
    · exact ⟨Kind.clean_written hk hv (unmarked hsummary hdescription s) s.default_valid, d.value s,
        Kind.read_written hk hv s.default_valid, Kind.agrees_refl s.kind (d.value s)⟩
  obtain ⟨f, hf⟩ := Classical.axiomOfChoice fun s => (hvalue s).2
  refine ⟨_, ofText_write_eq_ok hb (fun s => (hvalue s).1) (fun s => (hf s).1) name layout, ?_⟩
  unfold agrees
  rw [Bool.and_eq_true, Bool.and_eq_true, List.all_eq_true]
  exact ⟨⟨beq_self_eq_true _, fun s _ => (hf s).2⟩, rfl⟩

end Descriptor

/-! ## A document of plain paths -/

namespace Document

/-- The text that is given for a setting, if anything is left of it. -/
def given (values : List (Setting × Text)) (s : Setting) : Option Text :=
  (((values.find? (·.1 == s)).map (·.2)).map Text.trim).filter (!·.isEmpty)

/-- A document with an entry for each of the given settings. -/
def ofValues (values : List (Setting × Text)) : Document :=
  ⟨[], [], values.map fun p => ⟨p.1.key, p.2, 1⟩⟩

theorem setting?_ofValues (values : List (Setting × Text)) (s : Setting) :
    (ofValues values).setting? s.key = given values s := by
  have hkey : ∀ p : Setting × Text, (Text.lower p.1.key == Text.lower s.key) = (p.1 == s) := by
    intro p
    rw [Bool.eq_iff_iff, beq_iff_eq, beq_iff_eq]
    exact ⟨Setting.lower_key_inj, fun h => by rw [h]⟩
  have hget : (ofValues values).get? s.key = (values.find? (·.1 == s)).map (·.2) := by
    unfold get? entry? ofValues
    rw [List.find?_map, Option.map_map]
    simp only [Function.comp_def, Entry.folded, hkey]
  unfold setting?
  rw [hget, given]

end Document

namespace Descriptor

theorem exists_ofValues {values : List (Setting × Text)} {base : Path}
    (h : ∀ s ∈ Setting.all, Setting.faultOf (s.kind.read base.normal .off
      (Document.given values s)) = none) :
    ∃ d, ofDocument (Document.ofValues values) base .off = .ok d := by
  refine exists_ofDocument fun s => ?_
  unfold Setting.read
  rw [Document.setting?_ofValues]
  have hs := h s (Setting.mem_all s)
  cases hr : s.kind.read base.normal .off (Document.given values s) with
  | ok v => exact ⟨v, rfl⟩
  | error e => rw [hr] at hs; cases hs

theorem value_ofValues {values : List (Setting × Text)} {base : Path} {d : Descriptor}
    {s : Setting} {v : s.Value} (h : ofDocument (Document.ofValues values) base .off = .ok d)
    (hv : s.kind.read base.normal .off (Document.given values s) = .ok v) : d.value s = v := by
  have hread := (ofDocument_eq_ok_iff.mp h).2.2 s
  unfold Setting.read at hread
  rw [Document.setting?_ofValues] at hread
  exact Except.ok.inj (hread.symm.trans hv)

/-- Paths below the base, elsewhere, ruled out and in a list. -/
def plainValues : List (Setting × Text) :=
  [(.appBaseName, "App".toList), (.appFriendlyName, "App".toList), (.appId, "org.app".toList),
   (.appVersionRelease, "1.0".toList), (.appShortSummary, "An app".toList),
   (.appLicenseId, "MIT".toList), (.publisherName, "Me".toList),
   (.appLicenseFile, "docs/LICENSE".toList), (.appChangeFile, "none".toList),
   (.desktopFile, "/etc/app.desktop".toList), (.iconFiles, "a.png\nb/c.svg".toList)]

theorem write_round_trip_plainValues :
    ∃ d e, ofDocument (Document.ofValues plainValues) ⟨"/base".toList⟩ .off = .ok d ∧
      ofText [] (d.write .verbose) d.base .off = .ok e ∧
      agrees { d with unknown := [] } e = true := by
  have hok : ∀ s ∈ Setting.all, Setting.faultOf (s.kind.read (Path.normal ⟨"/base".toList⟩) .off
      (Document.given plainValues s)) = none := by decide +kernel
  obtain ⟨d, hd⟩ := exists_ofValues hok
  obtain ⟨hbase, -, -⟩ := ofDocument_eq_ok_iff.mp hd
  have hplain : ∀ s ∈ Setting.all, ∀ t ∈ Document.given plainValues s,
      s.kind.PlainText (Path.normal ⟨"/base".toList⟩) t := by decide +kernel
  have hsummary : d.value .appShortSummary = "An app".toList :=
    value_ofValues hd (by decide +kernel)
  have hdescription : d.value .appDescription = ([] : List Text) :=
    value_ofValues hd (by decide +kernel)
  obtain ⟨e, he, hag⟩ := write_round_trip hd (by rw [hsummary]; decide +kernel)
    (by rw [hdescription]; nofun) (by
      intro s t ht
      rw [Document.setting?_ofValues] at ht
      rw [hbase]
      exact hplain s (Setting.mem_all s) t ht) [] .verbose
  exact ⟨d, e, hd, he, hag⟩

end Descriptor

end Packaging
