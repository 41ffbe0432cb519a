import Mathlib.Data.List.DropRight
import Packaging.Proofs.Path.Relative

/-! Components spelled out. The text of a path that was put together from components is their texts
between slashes, so what is seen of it from a path above is the texts of the steps below. No way of
putting paths together or of looking at one makes up characters other than slashes. -/

namespace Packaging.Path

open Component (IsStep)

/-- The texts of components, between slashes. -/
def spelled (cs : List Component) : Text := List.intercalate ['/'] (cs.map Component.text)

theorem spelled_singleton (c : Component) : spelled [c] = c.text := List.intercalate_singleton

theorem spelled_concat {cs : List Component} (h : cs ≠ []) (c : Component) :
    spelled (cs ++ [c]) = spelled cs ++ '/' :: c.text := by
  rw [spelled, List.map_append, Text.intercalate_append (by simpa using h) (by simp),
    List.append_assoc]
  exact congrArg (spelled cs ++ '/' :: ·) (spelled_singleton c)

theorem segments_map_text {cs : List Component} (h : ∀ c ∈ cs, c.IsStep) :
    ∀ s ∈ cs.map Component.text, '/' ∉ s := by
  intro s hs
  obtain ⟨c, hc, rfl⟩ := List.mem_map.mp hs
  exact (h c hc).not_mem_text

theorem segments_spelled {cs : List Component} (h : ∀ c ∈ cs, c.IsStep) (hne : cs ≠ []) :
    segments (spelled cs) = cs.map Component.text :=
  segments_intercalate (segments_map_text h) (by simpa using hne)

theorem filterMap_map_text {cs : List Component} (h : ∀ c ∈ cs, c.IsStep) :
    (cs.map Component.text).filterMap Component.ofSegment? = cs := by
  induction cs with
  | nil => rfl
  | cons c cs ih =>
    rw [List.map_cons, List.filterMap_cons_some
      (Component.ofSegment?_text (h c (List.mem_cons_self ..))),
      ih fun d hd => h d (List.mem_cons_of_mem _ hd)]

theorem tight_map_text {cs : List Component} (h : ∀ c ∈ cs, c.IsStep) :
    Tight (cs.map Component.text) := by
  refine ⟨segments_map_text h, ?_⟩
  intro s hs
  obtain ⟨c, hc, rfl⟩ := List.mem_map.mp (List.mem_of_mem_head? hs)
  exact isHole_text (h c hc)

theorem steps_spelled {cs : List Component} (h : ∀ c ∈ cs, c.IsStep) :
    steps (spelled cs) = cs := by
  unfold spelled
  rw [steps_intercalate (segments_map_text h), filterMap_map_text h]

theorem start_spelled {cs : List Component} (h : ∀ c ∈ cs, c.IsStep) :
    start (spelled cs) = none := (tight_map_text h).start

theorem isAbsolute_spelled {cs : List Component} (h : ∀ c ∈ cs, c.IsStep) :
    isAbsolute ⟨spelled cs⟩ = false := (tight_map_text h).isAbsolute

/-- The last step of a text that was spelled out ends it. -/
theorem getLast?_spelled {cs : List Component} (h : ∀ c ∈ cs, c.IsStep) :
    (spelled cs).getLast? ≠ some '/' := by
  induction cs using List.reverseRecOn with
  | nil => nofun
  | append_singleton cs c _ =>
    have hc : c.IsStep := h c (by simp)
    have hl : c.text.getLast? ≠ some '/' := fun he =>
      hc.not_mem_text (List.mem_of_getLast? he)
    by_cases hne : cs = []
    · rw [hne, List.nil_append, spelled_singleton]
      exact hl
    · rw [spelled_concat hne, List.getLast?_append_of_ne_nil _ (List.cons_ne_nil '/' c.text),
        List.getLast?_cons_of_ne_nil hc.text_ne_nil]
      exact hl

theorem text_join_text {p : Path} {c : Component} (h : c.IsStep) (hne : p.text ≠ [])
    (hl : p.text.getLast? ≠ some '/') : (p.join ⟨c.text⟩).text = p.text ++ '/' :: c.text := by
  rcases text_join (p := p) (isAbsolute_text h) with ⟨-, he | ⟨a, ha⟩⟩ | ⟨ht, -⟩
  · exact absurd he hne
  · rw [ha, List.getLast?_concat] at hl
    exact absurd rfl hl
  · exact ht

theorem spelled_ne_nil {cs : List Component} (h : ∀ c ∈ cs, c.IsStep) (hne : cs ≠ []) :
    spelled cs ≠ [] := by
  intro he
  have := steps_spelled h
  rw [he, steps_nil] at this
  exact hne this.symm

theorem text_ofComponents {cs : List Component} (h : ∀ c ∈ cs, c.IsStep) :
    (ofComponents cs).text = spelled cs := by
  induction cs using List.reverseRecOn with
  | nil => rfl
  | append_singleton cs c ih =>
    have hc : c.IsStep := h c (by simp)
    have hcs : ∀ d ∈ cs, d.IsStep := fun d hd => h d (List.mem_append_left _ hd)
    rw [ofComponents_concat]
    by_cases hne : cs = []
    · rw [hne, List.nil_append, spelled_singleton, join,
        if_neg (Bool.eq_false_iff.mp (isAbsolute_text hc))]
      rfl
    · rw [text_join_text hc, ih hcs, spelled_concat hne]
      · rw [ih hcs]
        exact spelled_ne_nil hcs hne
      · rw [ih hcs]
        exact getLast?_spelled hcs

theorem text_ofComponents_root {cs : List Component} (h : ∀ c ∈ cs, c.IsStep) :
    (ofComponents (.root :: cs)).text = '/' :: spelled cs := by
  induction cs using List.reverseRecOn with
  | nil => rfl
  | append_singleton cs c ih =>
    have hc : c.IsStep := h c (by simp)
    have hcs : ∀ d ∈ cs, d.IsStep := fun d hd => h d (List.mem_append_left _ hd)
    rw [← List.cons_append, ofComponents_concat]
    by_cases hne : cs = []
    · rw [hne, List.nil_append, spelled_singleton, join,
        if_neg (Bool.eq_false_iff.mp (isAbsolute_text hc))]
      rfl
    · have hs := spelled_ne_nil hcs hne
      rw [text_join_text hc, ih hcs, spelled_concat hne]
      · rfl
      · rw [ih hcs]
        exact List.cons_ne_nil _ _
      · rw [ih hcs, List.getLast?_cons_of_ne_nil hs]
        exact getLast?_spelled hcs

/-! ## Seen from above -/

theorem parts_spelled {cs : List Component} (h : ∀ c ∈ cs, c.IsStep) :
    parts ⟨spelled cs⟩ = (none, cs.map Component.text) := by
  by_cases hne : cs = []
  · subst hne; rfl
  · rw [parts_plain (start_spelled h) (spelled_ne_nil h hne), segments_spelled h hne]

theorem parts_root_spelled {cs : List Component} (h : ∀ c ∈ cs, c.IsStep) (hne : cs ≠ []) :
    parts ⟨'/' :: spelled cs⟩ = (some .root, cs.map Component.text) := by
  rw [parts_slash, segments_spelled h hne]

theorem tighten_map_text {cs : List Component} (h : ∀ c ∈ cs, c.IsStep) :
    dropLastHoles ((cs.map Component.text).dropWhile isHole) = cs.map Component.text := by
  rw [dropWhile_map_text h, dropLastHoles_map_text h]

/-- Below a place with the components of a stack, the steps that lead on are seen. -/
theorem relativeTo?_ofComponents {st ns : List Component} {base : Path} (hst : Stack st)
    (hb : base.components = st.reverse) (h : ∀ c ∈ ns, c.IsStep) (hne : ns ≠ []) :
    (ofComponents (st.reverse ++ ns)).relativeTo? base = some ⟨spelled ns⟩ := by
  obtain ⟨cs, hcs, he | he⟩ := hst.exists_steps
  · have hall : ∀ c ∈ cs ++ ns, c.IsStep := List.forall_mem_append.mpr ⟨hcs, h⟩
    have hp : (ofComponents (cs ++ ns)).parts = (none, (cs ++ ns).map Component.text) := by
      rw [← parts_spelled hall, ← text_ofComponents hall]
    rw [he] at hb ⊢
    cases hc : cs with
    | nil =>
      rw [hc] at hb hp
      unfold relativeTo?
      rw [hb, hp, List.nil_append, dropLastHoles_map_text h]
      rfl
    | cons c cs' =>
      rw [hc] at hb hp hcs
      rw [relativeTo?_of_cons hb, hp]
      simp only [pass?_map_text hcs, Option.map_some, tighten_map_text h]
      rfl
  · have hall : ∀ c ∈ cs ++ ns, c.IsStep := List.forall_mem_append.mpr ⟨hcs, h⟩
    have hp : (ofComponents (.root :: (cs ++ ns))).parts =
        (some .root, (cs ++ ns).map Component.text) := by
      rw [← parts_root_spelled hall (by simp [hne]), ← text_ofComponents_root hall]
    rw [he] at hb ⊢
    rw [relativeTo?_of_cons hb, List.cons_append, hp]
    simp only [if_true, pass?_map_text hcs, Option.map_some, tighten_map_text h]
    rfl

/-! ## Characters -/

theorem mem_of_mem_segments {t s : Text} {c : Char} (hs : s ∈ segments t) (hc : c ∈ s) :
    c ∈ t := Text.mem_of_mem_cutAt hs hc

theorem mem_text_of_component {p : Path} {d : Component} (hd : d ∈ p.components) {c : Char}
    (hc : c ∈ d.text) : c ∈ p.text := by
  rw [components_eq, start] at hd
  rcases List.mem_append.mp hd with hd | hd
  · split at hd
    · rename_i h
      rw [Option.toList_some, List.mem_singleton] at hd
      rw [hd] at hc
      rw [List.mem_singleton.mp hc]
      exact List.mem_of_mem_head? h
    · split at hd
      · rename_i h
        rw [Option.toList_some, List.mem_singleton] at hd
        rw [hd] at hc
        exact mem_of_mem_segments (List.mem_of_mem_head? h) hc
      · cases hd
  · obtain ⟨s, hs, he⟩ := List.mem_filterMap.mp hd
    have hs' := (Component.isStep_of_ofSegment? (not_mem_of_mem_segments hs) he).2
    rw [hs'] at hc
    exact mem_of_mem_segments hs hc

theorem mem_join {p q : Path} {c : Char} (h : c ∈ (p.join q).text) :
    c ∈ p.text ∨ c ∈ q.text ∨ c = '/' := by
  unfold join at h
  split at h
  · exact .inr (.inl h)
  · split at h
    · rcases List.mem_append.mp h with h | h
      · exact .inl h
      · exact .inr (.inl h)
    · rcases List.mem_append.mp h with h | h
      · exact .inl h
      · rcases List.mem_cons.mp h with h | h
        · exact .inr (.inr h)
        · exact .inr (.inl h)

theorem mem_ofComponents {cs : List Component} {c : Char} (h : c ∈ (ofComponents cs).text) :
    c = '/' ∨ ∃ d ∈ cs, c ∈ d.text := by
  induction cs using List.reverseRecOn with
  | nil => cases h
  | append_singleton cs d ih =>
    rw [ofComponents_concat] at h
    rcases mem_join h with h | h | h
    · rcases ih h with h | ⟨e, he, hc⟩
      · exact .inl h
      · exact .inr ⟨e, List.mem_append_left _ he, hc⟩
    · exact .inr ⟨d, by simp, h⟩
    · exact .inl h

theorem mem_of_mem_push {st : List Component} {c d : Component} (h : d ∈ push st c) :
    d = c ∨ d ∈ st := by
  rw [push.eq_def] at h
  split at h
  · exact .inr h
  · exact .inr (List.mem_cons_of_mem _ h)
  · exact List.mem_cons.mp h

theorem mem_of_mem_stack {p : Path} {d : Component} (h : d ∈ stack p) : d ∈ p.components := by
  have hfold : ∀ (cs st : List Component), d ∈ cs.foldl push st → d ∈ cs ∨ d ∈ st := by
    intro cs
    induction cs with
    | nil => exact fun _ h => .inr h
    | cons c cs ih =>
      intro st h
      rcases ih _ h with h | h
      · exact .inl (List.mem_cons_of_mem _ h)
      · rcases mem_of_mem_push h with rfl | h
        · exact .inl (List.mem_cons_self ..)
        · exact .inr h
  rcases hfold p.components [] h with h | h
  · exact h
  · cases h

theorem mem_normal {p : Path} {c : Char} (h : c ∈ p.normal.text) : c ∈ p.text ∨ c = '/' := by
  rw [normal_eq] at h
  rcases mem_ofComponents h with h | ⟨d, hd, hc⟩
  · exact .inr h
  · exact .inl (mem_text_of_component (mem_of_mem_stack (List.mem_reverse.mp hd)) hc)

theorem mem_ofParts {p : Path} {lead : Option Component} {segs : List Text} {c : Char}
    (hl : ∀ d ∈ lead, d ∈ p.components) (hs : ∀ s ∈ segs, s ∈ segments p.text)
    (h : c ∈ (ofParts lead segs).text) : c ∈ p.text ∨ c = '/' := by
  have hbody : c ∈ List.intercalate ['/'] segs → c ∈ p.text ∨ c = '/' := by
    intro h
    rcases Text.mem_intercalate h with h | ⟨s, hm, hc⟩
    · exact .inr (List.mem_singleton.mp h)
    · exact .inl (mem_of_mem_segments (hs s hm) hc)
  have hlead : ∀ d, lead = some d → c ∈ d.text → c ∈ p.text ∨ c = '/' := fun d hd hc =>
    .inl (mem_text_of_component (hl d hd) hc)
  rw [ofParts.eq_def] at h
  split at h
  · rcases List.mem_cons.mp h with h | h
    · exact .inr h
    · exact hbody h
  · rename_i d _
    simp only at h
    split at h
    · exact hlead d rfl h
    · rcases List.mem_append.mp h with h | h
      · exact hlead d rfl h
      · rcases List.mem_cons.mp h with h | h
        · exact .inr h
        · exact hbody h
  · exact hbody h

theorem mem_relativeTo? {p base q : Path} (hq : p.relativeTo? base = some q) {c : Char}
    (h : c ∈ q.text) : c ∈ p.text ∨ c = '/' := by
  by_cases hb : base.components = []
  · unfold relativeTo? at hq
    rw [hb] at hq
    obtain rfl := Option.some.inj hq
    obtain ⟨hstart, hsuf, -⟩ := parts_cases p
    refine mem_ofParts ?_ (fun s hs => hsuf.subset ((dropLastHoles_isPrefix _).subset hs)) h
    intro d hd
    rw [components_eq, ← hstart, hd]
    exact List.mem_append_left _ (List.mem_singleton.mpr rfl)
  · obtain ⟨-, -, -, segs, hsuf, he⟩ := relativeTo?_spec hb hq
    rw [he] at h
    rcases Text.mem_intercalate h with h | ⟨s, hs, hc⟩
    · exact .inr (List.mem_singleton.mp h)
    · have := (dropLastHoles_isPrefix _).subset hs
      exact .inl (mem_of_mem_segments (hsuf.subset ((List.dropWhile_suffix isHole).subset this)) hc)

end Packaging.Path
