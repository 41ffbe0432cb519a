import Packaging.Descriptor.Read
import Packaging.Proofs.Text.Cut
import Packaging.Proofs.Text.Items
import Packaging.Proofs.Text.Paragraphs

/-! What reading guarantees of the values it accepts. A setting is read from a trimmed text, every
reader hands on the text or the items that it checked, and a descriptor is accepted if and only if
each of its settings is. -/

namespace Packaging

open Text (Trimmed Paragraphs)

/-! ## Characters -/

namespace CharClass

theorem fault?_safe_eq_none_iff {t : Text} :
    fault? .safe t = none ↔ ∀ c ∈ t, isHazard c = false := by
  unfold fault?
  rw [List.findSome?_eq_none_iff]
  refine forall₂_congr fun c _ => ?_
  cases isHazard c <;> simp

theorem fault?_oneWord_eq_none_iff {t : Text} :
    fault? .oneWord t = none ↔ ∀ c ∈ t, isHazard c = false ∧ Text.isBlank c = false := by
  unfold fault?
  rw [List.findSome?_eq_none_iff]
  refine forall₂_congr fun c _ => ?_
  cases isHazard c <;> cases Text.isBlank c <;> simp

/-- Only free text may hold the character that values are quoted with. -/
theorem quoteless {cls : CharClass} {t : Text} (hc : cls ≠ .free) (h : cls.fault? t = none) :
    '"' ∉ t := by
  intro hm
  cases cls with
  | free => exact hc rfl
  | safe => cases fault?_safe_eq_none_iff.mp h _ hm
  | oneWord => cases (fault?_oneWord_eq_none_iff.mp h _ hm).1
  | strict =>
    rw [fault?] at h
    split at h
    · cases h
    · have hs := List.find?_eq_none.mp (Option.map_eq_none_iff.mp h) _ hm
      exact hs rfl

end CharClass

theorem not_mark_of_quoteless {t : Text} (h : '"' ∉ t) : ¬Document.blockMark <:+: t := fun hi =>
  h (hi.subset (List.mem_cons_self ..))

/-- A text that a setting on one line can have. -/
structure IsLine (cls : CharClass) (t : Text) : Prop where
  trimmed : Trimmed t
  ne_nil : t ≠ []
  feedless : '\n' ∉ t
  accepted : cls.fault? t = none

theorem IsLine.hazardless {t : Text} (h : IsLine .safe t) {c : Char} (hc : c ∈ t) :
    CharClass.isHazard c = false := CharClass.fault?_safe_eq_none_iff.mp h.accepted c hc

theorem feedless_of_safe {t : Text} (h : CharClass.fault? .safe t = none) : '\n' ∉ t := fun hm => by
  cases CharClass.fault?_safe_eq_none_iff.mp h _ hm

/-! ## Readers -/

theorem mapM_eq_ok {α β : Type} {f : α → Except SettingFault β} {g : α → β} {xs : List α}
    (h : ∀ x ∈ xs, f x = .ok (g x)) : xs.mapM f = .ok (xs.map g) := by
  induction xs with
  | nil => rfl
  | cons x xs ih =>
    rw [List.mapM_cons, h x (List.mem_cons_self ..), ih fun y hy => h y (List.mem_cons_of_mem _ hy)]
    rfl

/-- What all steps of an accepted list have in common. -/
theorem of_mapM_eq_ok {α β : Type} {f : α → Except SettingFault β} {g : α → β} {P : α → Prop}
    (step : ∀ x y, f x = .ok y → y = g x ∧ P x) {xs : List α} {ys : List β}
    (h : xs.mapM f = .ok ys) : ys = xs.map g ∧ ∀ x ∈ xs, P x := by
  induction xs generalizing ys with
  | nil => cases h; exact ⟨rfl, nofun⟩
  | cons x xs ih =>
    rw [List.mapM_cons] at h
    cases hx : f x with
    | error e => rw [hx] at h; cases h
    | ok y =>
      cases hr : xs.mapM f with
      | error e => rw [hx, hr] at h; cases h
      | ok zs =>
        rw [hx, hr] at h
        cases h
        obtain ⟨rfl, hp⟩ := step x y hx
        obtain ⟨rfl, hall⟩ := ih hr
        refine ⟨rfl, ?_⟩
        intro z hz
        rcases List.mem_cons.mp hz with rfl | hz
        · exact hp
        · exact hall z hz

theorem map_eq_ok {α β : Type} {f : α → β} {r : Except SettingFault α} {b : β}
    (h : f <$> r = .ok b) : ∃ a, r = .ok a ∧ f a = b := by
  cases r with
  | error e => cases h
  | ok a => exact ⟨a, rfl, Except.ok.inj h⟩

namespace Kind

theorem readLine_eq_ok_iff {cls : CharClass} {t v : Text} :
    readLine cls t = .ok v ↔ v = t ∧ '\n' ∉ t ∧ cls.fault? t = none := by
  unfold readLine
  by_cases hn : t.contains '\n' = true
  · rw [if_pos hn]
    exact ⟨nofun, fun h => absurd (List.contains_iff_mem.mp hn) h.2.1⟩
  · rw [if_neg hn]
    have hm : '\n' ∉ t := fun hm => hn (List.contains_iff_mem.mpr hm)
    cases cls.fault? t with
    | none => simp [hm, eq_comm]
    | some fault => simp

theorem readLine_of_isLine {cls : CharClass} {t : Text} (h : IsLine cls t) :
    readLine cls t = .ok t := readLine_eq_ok_iff.mpr ⟨rfl, h.feedless, h.accepted⟩

theorem isLine_of_readLine {cls : CharClass} {t v : Text} (ht : Trimmed t) (hne : t ≠ [])
    (h : readLine cls t = .ok v) : v = t ∧ IsLine cls t := by
  obtain ⟨rfl, hn, ha⟩ := readLine_eq_ok_iff.mp h
  exact ⟨rfl, ht, hne, hn, ha⟩

theorem readVersion_eq_ok {t : Text} {v : Version} (ht : Trimmed t) (hne : t ≠ [])
    (h : readVersion t = .ok v) : IsLine .oneWord t ∧ Version.ofText? t = some v := by
  unfold readVersion at h
  cases hl : readLine .oneWord t with
  | error e => rw [hl] at h; cases h
  | ok w =>
    obtain ⟨rfl, hw⟩ := isLine_of_readLine ht hne hl
    rw [hl] at h
    refine ⟨hw, ?_⟩
    cases hv : Version.ofText? w with
    | none => simp [bind, Except.bind, hv] at h
    | some u =>
      simp only [bind, Except.bind, hv, Except.ok.injEq] at h
      rw [h]

theorem readPath_eq_ok {base : Path} {check : PathCheck} {t : Text} {v : PathValue}
    (ht : Trimmed t) (hne : t ≠ []) (h : readPath base check t = .ok v) :
    IsLine .safe t ∧
      v = if Text.sameLetters t disabledWord then .disabled else .resolved (resolve base t) := by
  unfold readPath at h
  cases hl : readLine .safe t with
  | error e => rw [hl] at h; cases h
  | ok w =>
    obtain ⟨rfl, hw⟩ := isLine_of_readLine ht hne hl
    rw [hl] at h
    refine ⟨hw, ?_⟩
    simp only [bind, Except.bind] at h
    split at h
    · rename_i hd
      rw [if_pos hd]
      exact (Except.ok.inj h).symm
    · rename_i hd
      rw [if_neg hd]
      unfold readPresent at h
      by_cases hp : check.passes (resolve base w) = true
      · simp only [hp, if_true] at h
        exact (Except.ok.inj h).symm
      · simp only [hp] at h
        cases h

theorem readPath_off {base : Path} {t : Text} (h : IsLine .safe t) :
    readPath base .off t =
      .ok (if Text.sameLetters t disabledWord then .disabled else .resolved (resolve base t)) := by
  unfold readPath
  rw [readLine_of_isLine h]
  simp only [bind, Except.bind]
  split <;> rfl

theorem readItem_eq_ok_iff {rule : ItemRule} {t v : Text} :
    readItem rule t = .ok v ↔
      v = t ∧ CharClass.fault? .safe t = none ∧ rule.start <+: t ∧ rule.part <:+: t := by
  unfold readItem
  rw [← List.isPrefixOf_iff_prefix, ← Text.hasPart_iff]
  cases CharClass.fault? .safe t with
  | some fault => simp
  | none => cases rule.start.isPrefixOf t <;> cases Text.hasPart rule.part t <;> simp [eq_comm]

theorem readItems_eq_ok {rule : ItemRule} {t : Text} {vs : List Text}
    (h : readItems rule t = .ok vs) :
    vs = Text.items t ∧ ∀ i ∈ Text.items t, readItem rule i = .ok i := by
  have hstep : ∀ x y, readItem rule x = .ok y → y = id x ∧ readItem rule x = .ok x := by
    intro x y hx
    have := readItem_eq_ok_iff.mp hx
    exact ⟨this.1, by rw [hx, this.1]⟩
  obtain ⟨hv, hall⟩ := of_mapM_eq_ok hstep h
  exact ⟨by rw [hv, List.map_id], hall⟩

theorem readItems_of_items {rule : ItemRule} {t : Text}
    (h : ∀ i ∈ Text.items t, readItem rule i = .ok i) : readItems rule t = .ok (Text.items t) := by
  have := mapM_eq_ok (g := id) h
  rwa [List.map_id] at this

theorem readPresent_eq_ok {base : Path} {check : PathCheck} {t : Text} {p : Path}
    (h : readPresent base check t = .ok p) : p = resolve base t := by
  unfold readPresent at h
  by_cases hp : check.passes (resolve base t) = true
  · simp only [hp, if_true] at h
    exact (Except.ok.inj h).symm
  · simp only [hp] at h
    cases h

theorem readPaths_eq_ok {base : Path} {check : PathCheck} {t : Text} {ps : List Path}
    (h : Kind.paths.read base check (some t) = .ok ps) :
    ps = (Text.items t).map (resolve base) ∧
      ∀ i ∈ Text.items t, CharClass.fault? .safe i = none := by
  rw [read] at h
  cases hi : readItems anyItem t with
  | error e => rw [hi] at h; cases h
  | ok vs =>
    obtain ⟨rfl, hall⟩ := readItems_eq_ok hi
    rw [hi] at h
    refine ⟨(of_mapM_eq_ok (P := fun _ => True) ?_ h).1, fun i hm =>
      (readItem_eq_ok_iff.mp (hall i hm)).2.1⟩
    exact fun x y hx => ⟨readPresent_eq_ok hx, trivial⟩

theorem readPaths_off {base : Path} {t : Text}
    (h : ∀ i ∈ Text.items t, CharClass.fault? .safe i = none) :
    Kind.paths.read base .off (some t) = .ok ((Text.items t).map (resolve base)) := by
  have hi : ∀ i ∈ Text.items t, readItem anyItem i = .ok i := fun i hm =>
    readItem_eq_ok_iff.mpr ⟨rfl, h i hm, List.nil_prefix, List.nil_infix⟩
  rw [read, readItems_of_items hi]
  exact mapM_eq_ok fun i _ => rfl

/-! ## Values -/

/-- The path of a text that a path setting can have. -/
def IsFrom (base p : Path) : Prop := ∃ t, IsLine .safe t ∧ p = resolve base t

/-- Items that a list can be read as: a single one holds no semicolon. -/
structure IsList (ok : Text → Prop) (is : List Text) : Prop where
  lines : ∀ i ∈ is, IsLine .safe i
  each : ∀ i ∈ is, ok i
  whole : ∀ i, is = [i] → ';' ∉ i

/-- What reading guarantees of a value. -/
def Valid (base : Path) : (k : Kind) → k.Value → Prop
  | .required cls, v => IsLine cls v
  | .optional cls, v => ∀ t, v = some t → IsLine cls t
  | .defaulted cls value, v => v = value ∨ IsLine cls v
  | .version, v => IsLine .oneWord v.written ∧ Version.ofText? v.written = some v
  | .flag _, _ => True
  | .path, v => ∀ p, v = .resolved p → IsFrom base p
  | .directory value, p => p = base.join value ∨ IsFrom base p
  | .paths, ps => ∀ p ∈ ps, IsFrom base p
  | .items rule, vs => IsList (fun i => readItem rule i = .ok i) vs
  | .paragraphs, ls => Paragraphs ls

theorem isLine_of_mem_items {i t : Text} (h : i ∈ Text.items t)
    (hs : CharClass.fault? .safe i = none) : IsLine .safe i :=
  ⟨(Text.trimmed_of_mem_items h).1, (Text.trimmed_of_mem_items h).2, feedless_of_safe hs, hs⟩

theorem written_of_ofText? {t : Text} {v : Version} (h : Version.ofText? t = some v) :
    v.written = t := by
  obtain ⟨p, -, rfl⟩ := Option.map_eq_some_iff.mp h
  rfl

theorem valid_of_read {base : Path} {check : PathCheck} {k : Kind} {o : Option Text} {v : k.Value}
    (ho : ∀ t, o = some t → Trimmed t ∧ t ≠ []) (h : k.read base check o = .ok v) :
    k.Valid base v := by
  cases o with
  | none =>
    cases k with
    | required cls => cases h
    | optional cls => cases h; nofun
    | defaulted cls value => cases h; exact .inl rfl
    | version => cases h
    | flag value => trivial
    | path => cases h; nofun
    | directory value => cases h; exact .inl rfl
    | paths => cases h; nofun
    | items rule => cases h; exact ⟨nofun, nofun, nofun⟩
    | paragraphs => cases h; exact ⟨.nil, nofun, nofun, nofun⟩
  | some t =>
    obtain ⟨ht, hne⟩ := ho t rfl
    cases k with
    | required cls =>
      obtain ⟨rfl, hl⟩ := isLine_of_readLine ht hne h
      exact hl
    | optional cls =>
      obtain ⟨w, hw, rfl⟩ := map_eq_ok h
      obtain ⟨rfl, hl⟩ := isLine_of_readLine ht hne hw
      intro u hu
      rwa [← Option.some.inj hu]
    | defaulted cls value =>
      obtain ⟨rfl, hl⟩ := isLine_of_readLine ht hne h
      exact .inr hl
    | version =>
      obtain ⟨hl, hv⟩ := readVersion_eq_ok ht hne h
      rw [Valid, written_of_ofText? hv]
      exact ⟨hl, hv⟩
    | flag value => trivial
    | path =>
      obtain ⟨hl, rfl⟩ := readPath_eq_ok ht hne h
      intro p hp
      split at hp
      · cases hp
      · exact ⟨t, hl, (PathValue.resolved.inj hp).symm⟩
    | directory value =>
      obtain ⟨w, hw, rfl⟩ := map_eq_ok h
      obtain ⟨hl, rfl⟩ := readPath_eq_ok ht hne hw
      rw [Valid]
      split
      · exact .inl rfl
      · exact .inr ⟨t, hl, rfl⟩
    | paths =>
      obtain ⟨rfl, hall⟩ := readPaths_eq_ok h
      intro p hp
      obtain ⟨i, hi, rfl⟩ := List.mem_map.mp hp
      exact ⟨i, isLine_of_mem_items hi (hall i hi), rfl⟩
    | items rule =>
      obtain ⟨rfl, hall⟩ := readItems_eq_ok h
      refine ⟨fun i hi => ?_, hall, fun i hi => Text.not_mem_of_items_singleton ht hi⟩
      exact isLine_of_mem_items hi (readItem_eq_ok_iff.mp (hall i hi)).2.1
    | paragraphs =>
      cases h
      exact Text.paragraphs_paragraphLines t

end Kind

/-! ## Descriptors -/

namespace Setting

theorem valueOf_spec {α : Type} {r : Except SettingFault α} (h : ∃ v, r = .ok v) :
    r = .ok (valueOf r h) := by
  obtain ⟨v, rfl⟩ := h
  rfl

theorem collect_eq_ok_iff {f : (s : Setting) → Except SettingFault s.Value}
    {g : (s : Setting) → s.Value} : collect f = .ok g ↔ ∀ s, f s = .ok (g s) := by
  constructor
  · intro h s
    unfold collect at h
    split at h
    · cases h
    · rename_i hn
      rw [← Except.ok.inj h]
      exact valueOf_spec _
  · intro h
    have hn : firstFault? f = none := by
      unfold firstFault?
      rw [List.findSome?_eq_none_iff]
      intro s _
      rw [h s]
      rfl
    unfold collect
    split
    · rename_i hs
      rw [hn] at hs
      cases hs
    · congr 1
      funext s
      have hv := valueOf_spec (isOk_of_firstFault?_eq_none hn s)
      exact Except.ok.inj (hv.symm.trans (h s))

end Setting

theorem Document.setting?_trimmed {doc : Document} {key t : Text} (h : doc.setting? key = some t) :
    Trimmed t ∧ t ≠ [] := by
  unfold setting? at h
  rw [Option.filter_eq_some_iff, Option.map_eq_some_iff] at h
  obtain ⟨⟨v, -, rfl⟩, hne⟩ := h
  exact ⟨Text.trimmed_trim v, by simpa using hne⟩

/-- A setting reads a document only through what that has for its keys. -/
theorem Setting.read_congr {doc doc' : Document} (h : ∀ key, doc.get? key = doc'.get? key)
    (base : Path) (check : PathCheck) :
    (fun s : Setting => s.read doc base check) = fun s : Setting => s.read doc' base check := by
  funext s
  rw [read, read, Document.setting?, Document.setting?, h]

namespace Descriptor

theorem ofDocument_eq_ok_iff {doc : Document} {base : Path} {check : PathCheck} {d : Descriptor} :
    ofDocument doc base check = .ok d ↔
      d.base = base.normal ∧ d.unknown = unknownKeys doc ∧
        ∀ s : Setting, s.read doc base.normal check = .ok (d.value s) := by
  rw [← Setting.collect_eq_ok_iff, ofDocument]
  cases hc : Setting.collect fun s => s.read doc base.normal check with
  | error e => exact ⟨nofun, fun h => nomatch h.2.2⟩
  | ok g =>
    obtain ⟨b, v, u⟩ := d
    simp only [bind, Except.bind, Except.ok.injEq, Descriptor.mk.injEq]
    constructor
    · intro hx
      obtain ⟨rfl, rfl, rfl⟩ := hx
      exact ⟨rfl, rfl, rfl⟩
    · intro hr
      obtain ⟨rfl, rfl, rfl⟩ := hr
      exact ⟨rfl, rfl, rfl⟩

theorem valid_of_ofDocument {doc : Document} {base : Path} {check : PathCheck} {d : Descriptor}
    (h : ofDocument doc base check = .ok d) (s : Setting) :
    s.kind.Valid d.base (d.value s) := by
  obtain ⟨hbase, -, hread⟩ := ofDocument_eq_ok_iff.mp h
  rw [hbase]
  exact Kind.valid_of_read (fun t => Document.setting?_trimmed) (hread s)

/-- What is seen of a result shows that there is one. -/
theorem exists_ok_of_map {α β : Type} {r : Except Fault α} {f : α → β} {b : β}
    (h : r.toOption.map f = some b) : ∃ a, r = .ok a ∧ f a = b := by
  cases r with
  | error e => cases h
  | ok a => exact ⟨a, rfl, Option.some.inj h⟩

theorem exists_ofDocument {doc : Document} {base : Path} {check : PathCheck}
    (h : ∀ s : Setting, ∃ v, s.read doc base.normal check = .ok v) :
    ∃ d, ofDocument doc base check = .ok d := by
  obtain ⟨f, hf⟩ := Classical.axiomOfChoice h
  exact ⟨⟨base.normal, f, unknownKeys doc⟩, ofDocument_eq_ok_iff.mpr ⟨rfl, rfl, hf⟩⟩

end Descriptor

end Packaging
