import Packaging.Proofs.Path.Normal

/-! A path as seen from another one. It is seen if and only if it leads there or below, what is seen
are the components behind, and the text of steps that were spelled out is seen as it was. -/

namespace Packaging.Path

open Component (IsStep)

/-! ## Segments that lead nowhere -/

theorem filterMap_dropWhile_isHole (segs : List Text) :
    (segs.dropWhile isHole).filterMap Component.ofSegment? =
      segs.filterMap Component.ofSegment? := by
  induction segs with
  | nil => rfl
  | cons s segs ih =>
    rw [List.dropWhile_cons]
    split
    · rename_i h
      rw [ih, List.filterMap_cons_none (Option.isNone_iff_eq_none.mp h)]
    · rfl

theorem filterMap_dropLastHoles (segs : List Text) :
    (dropLastHoles segs).filterMap Component.ofSegment? =
      segs.filterMap Component.ofSegment? := by
  rw [dropLastHoles, List.filterMap_reverse, filterMap_dropWhile_isHole, List.filterMap_reverse,
    List.reverse_reverse]

theorem dropLastHoles_isPrefix (segs : List Text) : dropLastHoles segs <+: segs := by
  have := List.dropWhile_suffix isHole (l := segs.reverse)
  unfold dropLastHoles
  simpa using List.reverse_prefix.mpr this

theorem isHole_text {c : Component} (h : c.IsStep) : isHole c.text = false := by
  rw [isHole, Component.ofSegment?_text h]; rfl

/-- Segments that were spelled out all lead somewhere. -/
theorem dropWhile_map_text {cs : List Component} (h : ∀ c ∈ cs, c.IsStep) :
    (cs.map Component.text).dropWhile isHole = cs.map Component.text := by
  cases cs with
  | nil => rfl
  | cons c cs =>
    exact List.dropWhile_cons_of_neg (by simp [isHole_text (h c (List.mem_cons_self ..))])

theorem dropLastHoles_map_text {cs : List Component} (h : ∀ c ∈ cs, c.IsStep) :
    dropLastHoles (cs.map Component.text) = cs.map Component.text := by
  rw [dropLastHoles, ← List.map_reverse,
    dropWhile_map_text fun c hc => h c (List.mem_reverse.mp hc), List.map_reverse,
    List.reverse_reverse]

/-! ## Passing components -/

theorem pass?_spec {cs : List Component} {segs rest : List Text} (h : pass? cs segs = some rest) :
    segs.filterMap Component.ofSegment? = cs ++ rest.filterMap Component.ofSegment? ∧
      rest <:+ segs := by
  induction segs generalizing cs with
  | nil =>
    cases cs with
    | nil => obtain rfl := Option.some.inj h; exact ⟨rfl, List.suffix_refl _⟩
    | cons c cs => cases h
  | cons s segs ih =>
    cases cs with
    | nil =>
      unfold pass? at h
      rw [Option.some.injEq] at h
      subst h
      exact ⟨rfl, List.suffix_refl _⟩
    | cons c cs =>
      unfold pass? at h
      cases hs : Component.ofSegment? s with
      | none =>
        simp only [hs] at h
        rw [List.filterMap_cons_none hs]
        exact ⟨(ih h).1, (ih h).2.trans (List.suffix_cons ..)⟩
      | some d =>
        simp only [hs] at h
        split at h
        · rename_i hd
          subst hd
          rw [List.filterMap_cons_some hs, (ih h).1]
          exact ⟨rfl, (ih h).2.trans (List.suffix_cons ..)⟩
        · cases h

theorem exists_pass? {cs : List Component} {segs : List Text}
    (h : cs <+: segs.filterMap Component.ofSegment?) : ∃ rest, pass? cs segs = some rest := by
  induction segs generalizing cs with
  | nil =>
    rw [List.filterMap_nil, List.prefix_nil] at h
    subst h
    exact ⟨[], rfl⟩
  | cons s segs ih =>
    cases cs with
    | nil => exact ⟨_, by rw [pass?]⟩
    | cons c cs =>
      unfold pass?
      cases hs : Component.ofSegment? s with
      | none =>
        rw [List.filterMap_cons_none hs] at h
        exact ih h
      | some d =>
        rw [List.filterMap_cons_some hs] at h
        obtain ⟨rfl, hp⟩ := List.cons_prefix_cons.mp h
        simp only [if_true]
        exact ih hp

theorem pass?_map_text {cs ns : List Component} (h : ∀ c ∈ cs, c.IsStep) :
    pass? cs ((cs ++ ns).map Component.text) = some (ns.map Component.text) := by
  induction cs with
  | nil => rw [pass?]; rfl
  | cons c cs ih =>
    rw [List.cons_append, List.map_cons, pass?,
      Component.ofSegment?_text (h c (List.mem_cons_self ..))]
    simp only [if_true]
    exact ih fun d hd => h d (List.mem_cons_of_mem _ hd)

/-! ## What is seen -/

/-- The segments of a text, less what leads nowhere at either end. -/
structure Tight (segs : List Text) : Prop where
  slashless : ∀ s ∈ segs, '/' ∉ s
  head : ∀ s ∈ segs.head?, isHole s = false

theorem Tight.segments {segs : List Text} (h : Tight segs) (hne : segs ≠ []) :
    Path.segments (List.intercalate ['/'] segs) = segs :=
  segments_intercalate h.slashless hne

theorem steps_intercalate {segs : List Text} (h : ∀ s ∈ segs, '/' ∉ s) :
    Path.steps (List.intercalate ['/'] segs) = segs.filterMap Component.ofSegment? := by
  by_cases hne : segs = []
  · subst hne; rfl
  · unfold Path.steps
    rw [segments_intercalate h hne]

theorem head?_intercalate {s : Text} (ss : List Text) (h : s ≠ []) :
    (List.intercalate ['/'] (s :: ss)).head? = s.head? := by
  obtain ⟨c, r, rfl⟩ := List.exists_cons_of_ne_nil h
  cases ss with
  | nil => rw [List.intercalate_singleton]
  | cons t ss => rw [List.intercalate_cons_cons]; rfl

theorem Tight.start {segs : List Text} (h : Tight segs) :
    Path.start (List.intercalate ['/'] segs) = none := by
  cases segs with
  | nil => rfl
  | cons s ss =>
    have hh := h.head s rfl
    have hs : s ≠ [] := by rintro rfl; cases hh
    have hd : s ≠ ['.'] := by rintro rfl; cases hh
    rw [start_of_segments (h.segments (List.cons_ne_nil s ss)), if_neg hd]
    rw [head?_intercalate ss hs]
    exact fun he => h.slashless s (List.mem_cons_self ..) (List.mem_of_mem_head? he)

theorem Tight.isAbsolute {segs : List Text} (h : Tight segs) :
    Path.isAbsolute ⟨List.intercalate ['/'] segs⟩ = false := by
  rw [Bool.eq_false_iff, ne_eq, isAbsolute_iff]
  intro he
  have := h.start
  rw [Path.start, if_pos he] at this
  cases this

theorem tight_of_suffix {t : Text} {segs : List Text} (h : segs <:+ Path.segments t) :
    Tight (dropLastHoles (segs.dropWhile isHole)) := by
  have hsub : ∀ s ∈ dropLastHoles (segs.dropWhile isHole), s ∈ segs := fun s hs =>
    (List.dropWhile_suffix isHole).subset ((dropLastHoles_isPrefix _).subset hs)
  refine ⟨fun s hs => not_mem_of_mem_segments (h.subset (hsub s hs)), ?_⟩
  intro s hs
  have hp := dropLastHoles_isPrefix (segs.dropWhile isHole)
  obtain ⟨r, hr⟩ := hp
  have hd : s ∈ (segs.dropWhile isHole).head? := by
    rw [← hr]
    cases he : dropLastHoles (segs.dropWhile isHole) with
    | nil => rw [he] at hs; cases hs
    | cons a l => rw [he] at hs; exact hs
  have hn := List.head?_dropWhile_not isHole segs
  rw [Option.mem_def.mp hd] at hn
  exact hn

/-- The parts of a path, by how it starts. -/
theorem parts_cases (p : Path) :
    (p.parts.1 = start p.text) ∧ p.parts.2 <:+ segments p.text ∧
      p.parts.2.filterMap Component.ofSegment? = steps p.text := by
  obtain ⟨t⟩ := p
  cases t with
  | nil => exact ⟨rfl, List.nil_suffix, rfl⟩
  | cons c r =>
    by_cases hc : c = '/'
    · subst hc
      rw [parts_slash, steps_slash, segments_slash]
      exact ⟨rfl, List.suffix_cons .., rfl⟩
    · obtain ⟨w, ws, hs, -⟩ := head_segments (r := r) hc
      have hst := start_of_segments hs (by simpa using hc)
      by_cases hd : c :: w = ['.']
      · rw [if_pos hd] at hst
        rw [hd] at hs
        rw [parts_here hs, hst, steps, hs]
        exact ⟨rfl, List.suffix_cons .., rfl⟩
      · rw [if_neg hd] at hst
        rw [parts_plain hst (List.cons_ne_nil c r), hst, steps]
        exact ⟨rfl, List.suffix_refl _, rfl⟩

theorem relativeTo?_of_cons {p base : Path} {b : Component} {bs : List Component}
    (h : base.components = b :: bs) :
    p.relativeTo? base =
      (match p.parts.1 with
        | some d => if b = d then pass? bs p.parts.2 else none
        | none => pass? (b :: bs) p.parts.2).map fun segs : List Text =>
          ofParts none (dropLastHoles (segs.dropWhile isHole)) := by
  unfold relativeTo?
  split
  · rename_i hn
    rw [hn] at h
    cases h
  · rename_i hn
    rw [hn] at h
    cases h
    rfl

/-- Where the base has components, what is seen from it is relative, and with the components of
the base in front it has the components of the path. -/
theorem relativeTo?_spec {p base q : Path} (hb : base.components ≠ [])
    (h : p.relativeTo? base = some q) :
    p.components = base.components ++ q.components ∧ start q.text = none ∧
      q.isAbsolute = false ∧ ∃ segs, segs <:+ segments p.text ∧
        q.text = List.intercalate ['/'] (dropLastHoles (segs.dropWhile isHole)) := by
  obtain ⟨b, bs, hbs⟩ := List.exists_cons_of_ne_nil hb
  obtain ⟨hstart, hsuf, hsteps⟩ := parts_cases p
  rw [relativeTo?_of_cons hbs] at h
  obtain ⟨rest, hr, rfl⟩ := Option.map_eq_some_iff.mp h
  have hrest : p.components = base.components ++ rest.filterMap Component.ofSegment? ∧
      rest <:+ p.parts.2 := by
    rw [components_eq, hbs, ← hstart, ← hsteps]
    cases hp : p.parts.1 with
    | none =>
      rw [hp] at hr
      exact pass?_spec hr
    | some d =>
      rw [hp] at hr
      simp only at hr
      split at hr
      · rename_i hd
        subst hd
        exact ⟨congrArg _ (pass?_spec hr).1, (pass?_spec hr).2⟩
      · cases hr
  have ht := tight_of_suffix (hrest.2.trans hsuf)
  refine ⟨?_, ht.start, ht.isAbsolute, rest, hrest.2.trans hsuf, rfl⟩
  have hq : (ofParts none (dropLastHoles (rest.dropWhile isHole))).components = _ :=
    components_of_start ht.start
  rw [hq, hrest.1]
  show _ = _ ++ steps (List.intercalate ['/'] _)
  rw [steps_intercalate ht.slashless, filterMap_dropLastHoles, filterMap_dropWhile_isHole]

theorem relativeTo?_eq_none_iff {p base : Path} (hb : base.components ≠ []) :
    p.relativeTo? base = none ↔ ¬base.components <+: p.components := by
  constructor
  · intro h hp
    obtain ⟨b, bs, hbs⟩ := List.exists_cons_of_ne_nil hb
    obtain ⟨hstart, -, hsteps⟩ := parts_cases p
    rw [relativeTo?_of_cons hbs, Option.map_eq_none_iff] at h
    rw [hbs, components_eq p, ← hstart, ← hsteps] at hp
    cases hd : p.parts.1 with
    | none =>
      rw [hd] at h hp
      obtain ⟨rest, hr⟩ := exists_pass? hp
      rw [hr] at h
      cases h
    | some d =>
      rw [hd] at h hp
      obtain ⟨rfl, htail⟩ := List.cons_prefix_cons.mp hp
      obtain ⟨rest, hr⟩ := exists_pass? htail
      simp only [if_true, hr] at h
      cases h
  · intro h
    cases hq : p.relativeTo? base with
    | none => rfl
    | some q => exact absurd ⟨q.components, (relativeTo?_spec hb hq).1.symm⟩ h

end Packaging.Path
