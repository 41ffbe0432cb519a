import Packaging.Path
import Packaging.Proofs.Text.Cut

/-! The components of a path, read off its text: how it starts, and the steps that its segments
make. Joining puts the steps behind each other, and steps spelled out one after the other are read
as the same steps again. -/

namespace Packaging

namespace Component

/-- A component that can stand anywhere but in front of everything. -/
inductive IsStep : Component → Prop
  | up : IsStep .up
  | name {n : Text} : n ≠ [] → n ≠ ['.'] → n ≠ ['.', '.'] → '/' ∉ n → IsStep (.name n)

theorem ofSegment?_text {c : Component} (h : c.IsStep) : ofSegment? c.text = some c := by
  cases h with
  | up => rfl
  | name h1 h2 h3 _ => simp [ofSegment?, text, h1, h2, h3]

theorem isStep_of_ofSegment? {s : Text} {c : Component} (hs : '/' ∉ s)
    (h : ofSegment? s = some c) : c.IsStep ∧ c.text = s := by
  unfold ofSegment? at h
  split at h
  · cases h
  · rename_i h1
    simp only [Bool.or_eq_true, decide_eq_true_eq, not_or] at h1
    split at h
    · rename_i h2
      obtain rfl := Option.some.inj h
      exact ⟨.up, h2.symm⟩
    · rename_i h2
      obtain rfl := Option.some.inj h
      exact ⟨.name h1.1 h1.2 h2 hs, rfl⟩

theorem IsStep.not_mem_text {c : Component} (h : c.IsStep) : '/' ∉ c.text := by
  cases h with
  | up => decide
  | name _ _ _ h4 => exact h4

theorem IsStep.text_ne_nil {c : Component} (h : c.IsStep) : c.text ≠ [] := by
  cases h with
  | up => nofun
  | name h1 _ _ _ => exact h1

theorem IsStep.text_ne_dot {c : Component} (h : c.IsStep) : c.text ≠ ['.'] := by
  cases h with
  | up => decide
  | name _ h2 _ _ => exact h2

end Component

namespace Path

/-! ## Segments -/

/-- What stands between the slashes of a text. -/
def segments (t : Text) : List Text := Text.cutAt (· == '/') t

/-- The steps that the segments of a text make. -/
def steps (t : Text) : List Component := (segments t).filterMap Component.ofSegment?

/-- How a text starts, if that is a component of its own. -/
def start (t : Text) : Option Component :=
  if t.head? = some '/' then some .root
  else if (segments t).head? = some ['.'] then some .here
  else none

theorem segments_eq_splitOn (t : Text) : segments t = t.splitOn '/' := Text.cutAt_eq_splitOn '/' t

theorem segments_ne_nil (t : Text) : segments t ≠ [] := by
  rw [segments_eq_splitOn]
  exact List.splitOn_ne_nil _ _

theorem segments_append_slash (a b : Text) :
    segments (a ++ '/' :: b) = segments a ++ segments b := by
  simp only [segments_eq_splitOn]
  exact List.splitOn_append_cons_self a b

theorem segments_of_not_mem {t : Text} (h : '/' ∉ t) : segments t = [t] := by
  rw [segments_eq_splitOn]
  exact List.splitOn_eq_singleton h

theorem segments_intercalate {ss : List Text} (h : ∀ s ∈ ss, '/' ∉ s) (hne : ss ≠ []) :
    segments (List.intercalate ['/'] ss) = ss := by
  rw [segments_eq_splitOn]
  exact List.splitOn_intercalate '/' h hne

theorem intercalate_segments (t : Text) : List.intercalate ['/'] (segments t) = t :=
  Text.intercalate_cutAt '/' t

theorem segments_slash (t : Text) : segments ('/' :: t) = [] :: segments t :=
  segments_append_slash [] t

theorem not_mem_of_mem_segments {t s : Text} (h : s ∈ segments t) : '/' ∉ s :=
  Text.not_mem_of_mem_cutAt h

/-- A text that does not start with a slash is empty or starts with a segment that is not. -/
theorem head_segments {c : Char} {r : Text} (h : c ≠ '/') :
    ∃ w ws, segments (c :: r) = (c :: w) :: ws ∧ segments r = w :: ws := by
  obtain ⟨w, ws, hw⟩ := List.exists_cons_of_ne_nil (segments_ne_nil r)
  refine ⟨w, ws, ?_, hw⟩
  rw [segments_eq_splitOn] at hw ⊢
  rw [List.splitOn_cons_eq_if_modifyHead, if_neg (by simpa using h), hw, List.modifyHead_cons]

/-! ## Steps -/

@[simp] theorem steps_nil : steps [] = [] := rfl

theorem steps_append_slash (a b : Text) : steps (a ++ '/' :: b) = steps a ++ steps b := by
  rw [steps, segments_append_slash, List.filterMap_append, steps, steps]

theorem steps_slash (t : Text) : steps ('/' :: t) = steps t := steps_append_slash [] t

theorem steps_text {c : Component} (h : c.IsStep) : steps c.text = [c] := by
  unfold steps
  rw [segments_of_not_mem h.not_mem_text]
  simp [Component.ofSegment?_text h]

theorem isStep_of_mem_steps {t : Text} {c : Component} (h : c ∈ steps t) : c.IsStep := by
  obtain ⟨s, hs, hc⟩ := List.mem_filterMap.mp h
  exact (Component.isStep_of_ofSegment? (not_mem_of_mem_segments hs) hc).1

/-! ## Components -/

theorem parts_slash (t : Text) : parts ⟨'/' :: t⟩ = (some .root, segments t) := by
  have h : Text.cutAt (· == '/') ('/' :: t) = [] :: segments t := segments_slash t
  obtain ⟨w, ws, hw⟩ := List.exists_cons_of_ne_nil (segments_ne_nil t)
  unfold parts
  simp only [h, hw]

theorem parts_here {t : Text} {ws : List Text} (h : segments t = ['.'] :: ws) :
    parts ⟨t⟩ = (some .here, ws) := by
  have hcut : Text.cutAt (· == '/') t = ['.'] :: ws := h
  unfold parts
  simp only [hcut]

theorem start_slash (t : Text) : start ('/' :: t) = some .root := rfl

theorem start_of_segments {t : Text} {w : Text} {ws : List Text} (h : segments t = w :: ws)
    (hs : t.head? ≠ some '/') : start t = if w = ['.'] then some .here else none := by
  unfold start
  rw [if_neg hs, h]
  simp only [List.head?_cons, Option.some.injEq]

theorem parts_plain {t : Text} (h : start t = none) (hne : t ≠ []) :
    parts ⟨t⟩ = (none, segments t) := by
  obtain ⟨c, r, rfl⟩ := List.exists_cons_of_ne_nil hne
  have hc : c ≠ '/' := by
    intro heq
    subst heq
    cases h
  obtain ⟨w, ws, hs, -⟩ := head_segments (r := r) hc
  have hd : c :: w ≠ ['.'] := by
    intro hd
    rw [start_of_segments hs (by simpa using hc), if_pos hd] at h
    cases h
  have hcut : Text.cutAt (· == '/') (c :: r) = (c :: w) :: ws := hs
  unfold parts
  simp only [hcut]
  split
  · cases ‹_ = []›
  · cases ‹_ = [[]]›
  · cases ‹_ = [] :: _›
  · rename_i he
    exact absurd (List.cons.inj he).1 hd
  · rw [hs]

theorem components_eq (p : Path) : p.components = (start p.text).toList ++ steps p.text := by
  obtain ⟨t⟩ := p
  cases t with
  | nil => rfl
  | cons c r =>
    by_cases hc : c = '/'
    · subst hc
      unfold components
      rw [parts_slash, steps_slash, start_slash]
      rfl
    · obtain ⟨w, ws, hs, -⟩ := head_segments (r := r) hc
      have hst := start_of_segments hs (by simpa using hc)
      by_cases hd : c :: w = ['.']
      · rw [if_pos hd] at hst
        rw [hd] at hs
        unfold components
        rw [parts_here hs, hst, steps, hs]
        rfl
      · rw [if_neg hd] at hst
        unfold components
        rw [parts_plain hst (List.cons_ne_nil c r), hst, steps]

theorem components_of_start {p : Path} (h : start p.text = none) : p.components = steps p.text := by
  rw [components_eq, h]; rfl

theorem isAbsolute_iff {p : Path} : p.isAbsolute = true ↔ p.text.head? = some '/' := by
  unfold isAbsolute
  rw [beq_iff_eq]

theorem isAbsolute_iff_head {p : Path} :
    p.isAbsolute = true ↔ p.components.head? = some .root := by
  rw [isAbsolute_iff, components_eq, start]
  split
  · simp [*]
  · rename_i h
    simp only [h, false_iff]
    split
    · simp
    · rw [Option.toList_none, List.nil_append]
      intro hr
      have := isStep_of_mem_steps (List.mem_of_mem_head? hr)
      cases this

theorem components_absolute {p : Path} (h : p.isAbsolute = true) :
    p.components = .root :: steps p.text := by
  rw [components_eq, start, if_pos (isAbsolute_iff.mp h)]
  rfl

/-! ## Joining -/

theorem join_absolute {p q : Path} (h : q.isAbsolute = true) : p.join q = q := by
  unfold join
  rw [if_pos h]

theorem text_join {p q : Path} (h : q.isAbsolute = false) :
    (p.join q).text = p.text ++ q.text ∧ (p.text = [] ∨ ∃ a, p.text = a ++ ['/']) ∨
      (p.join q).text = p.text ++ '/' :: q.text ∧ p.text ≠ [] := by
  unfold join
  rw [if_neg (Bool.eq_false_iff.mp h)]
  split
  · rename_i hc
    left
    refine ⟨rfl, ?_⟩
    rcases Bool.or_eq_true_iff.mp hc with he | hl
    · exact .inl (List.isEmpty_iff.mp he)
    · obtain ⟨a, ha⟩ := List.getLast?_eq_some_iff.mp (beq_iff_eq.mp hl)
      exact .inr ⟨a, ha⟩
  · rename_i hc
    right
    refine ⟨rfl, fun he => hc ?_⟩
    rw [he]; rfl

theorem isAbsolute_join {base : Path} (q : Path) (h : base.isAbsolute = true) :
    (base.join q).isAbsolute = true := by
  cases ha : q.isAbsolute with
  | true => rwa [join_absolute ha]
  | false =>
    obtain ⟨t, ht⟩ := List.head?_eq_some_iff.mp (isAbsolute_iff.mp h)
    rw [isAbsolute_iff]
    rcases text_join (p := base) ha with ⟨hj, -⟩ | ⟨hj, -⟩ <;> rw [hj, ht] <;> rfl

theorem steps_join {p q : Path} (h : q.isAbsolute = false) :
    steps (p.join q).text = steps p.text ++ steps q.text := by
  rcases text_join (p := p) h with ⟨ht, he | ⟨a, ha⟩⟩ | ⟨ht, -⟩
  · rw [ht, he]; rfl
  · have hs : steps (a ++ ['/']) = steps a := by
      rw [steps_append_slash, steps_nil, List.append_nil]
    rw [ht, ha, hs, List.append_assoc]
    exact steps_append_slash a q.text
  · rw [ht, steps_append_slash]

theorem start_append {t : Text} (h : t ≠ []) (u : Text) : start (t ++ '/' :: u) = start t := by
  obtain ⟨c, r, rfl⟩ := List.exists_cons_of_ne_nil h
  obtain ⟨w, ws, hw⟩ := List.exists_cons_of_ne_nil (segments_ne_nil (c :: r))
  have hs : segments (c :: (r ++ '/' :: u)) = w :: ws ++ segments u := by
    rw [← hw]
    exact segments_append_slash (c :: r) u
  simp only [start, hs, hw, List.cons_append, List.head?_cons]

theorem start_join {p q : Path} (h : q.isAbsolute = false) :
    start (p.join q).text = if p.text = [] then start q.text else start p.text := by
  rcases text_join (p := p) h with ⟨ht, he | ⟨a, ha⟩⟩ | ⟨ht, hne⟩
  · rw [ht, he, if_pos rfl]; rfl
  · rw [ht, ha, if_neg (by simp)]
    cases a with
    | nil => rfl
    | cons c r =>
      rw [List.append_assoc]
      exact (start_append (List.cons_ne_nil c r) q.text).trans
        (start_append (List.cons_ne_nil c r) []).symm
  · rw [ht, if_neg hne, start_append hne]

/-- Joining a relative path puts its components behind. -/
theorem components_join {p q : Path} (ha : q.isAbsolute = false) (hs : start q.text = none) :
    (p.join q).components = p.components ++ q.components := by
  rw [components_eq, steps_join ha, start_join ha, components_of_start hs, components_eq p]
  split
  · rename_i he
    rw [hs, he]
    rfl
  · rw [List.append_assoc]

theorem start_text {c : Component} (h : c.IsStep) : start c.text = none := by
  have hh : c.text.head? ≠ some '/' :=
    fun he => h.not_mem_text (List.mem_of_mem_head? he)
  unfold start
  rw [if_neg hh, segments_of_not_mem h.not_mem_text, if_neg]
  simpa using h.text_ne_dot

theorem isAbsolute_text {c : Component} (h : c.IsStep) : isAbsolute ⟨c.text⟩ = false := by
  rw [Bool.eq_false_iff, ne_eq, isAbsolute_iff]
  exact fun he => h.not_mem_text (List.mem_of_mem_head? he)

theorem ofComponents_concat (cs : List Component) (c : Component) :
    ofComponents (cs ++ [c]) = (ofComponents cs).join ⟨c.text⟩ := by
  rw [ofComponents, List.foldl_append]; rfl

theorem components_concat (cs : List Component) {c : Component} (h : c.IsStep) :
    (ofComponents (cs ++ [c])).components = (ofComponents cs).components ++ [c] := by
  rw [ofComponents_concat, components_join (isAbsolute_text h) (start_text h)]
  rw [components_of_start (p := ⟨c.text⟩) (start_text h), steps_text h]

end Path

end Packaging
