import Packaging.Text.Basic

/-! What the ways of cutting a text find: a mark where it first stands, a character where it first
stands, and every place of a separator. -/

namespace Packaging.Text

/-- `u` is what stands in `t` before the first `mark`. -/
def Before (mark u t : Text) : Prop :=
  (∃ r, t = u ++ mark ++ r) ∧ ∀ v r, t = v ++ mark ++ r → u <+: v

theorem Before.unique {mark u v t : Text} (hu : Before mark u t) (hv : Before mark v t) :
    u = v := by
  obtain ⟨⟨r, hr⟩, hmin⟩ := hu
  obtain ⟨⟨s, hs⟩, hmin'⟩ := hv
  exact (hmin v s hs).eq_of_length_le (hmin' u r hr).length_le

theorem before_nil_iff {mark t : Text} : Before mark [] t ↔ mark <+: t := by
  constructor
  · intro h
    obtain ⟨⟨r, hr⟩, -⟩ := h
    exact ⟨r, by rw [hr]; rfl⟩
  · intro hx
    obtain ⟨r, hr⟩ := hx
    exact ⟨⟨r, hr.symm⟩, fun v _ _ => List.nil_prefix⟩

theorem before_cons_iff {mark u r : Text} {c : Char} (h : ¬mark <+: c :: r) :
    Before mark u (c :: r) ↔ ∃ v, u = c :: v ∧ Before mark v r := by
  constructor
  · intro hx
    obtain ⟨⟨s, hs⟩, hmin⟩ := hx
    cases u with
    | nil => exact absurd ⟨s, hs.symm⟩ h
    | cons d v =>
      obtain ⟨rfl, ht⟩ := List.cons.inj hs
      refine ⟨v, rfl, ⟨s, ht⟩, ?_⟩
      intro w s' hw
      have := hmin (c :: w) s' (by rw [hw]; rfl)
      exact (List.cons_prefix_cons.mp this).2
  · intro hr
    obtain ⟨v, rfl, ⟨s, hs⟩, hmin⟩ := hr
    refine ⟨⟨s, by rw [hs]; rfl⟩, ?_⟩
    intro w s' hw
    cases w with
    | nil => exact absurd ⟨s', hw.symm⟩ h
    | cons d w =>
      obtain ⟨rfl, ht⟩ := List.cons.inj hw
      exact List.cons_prefix_cons.mpr ⟨rfl, hmin w s' ht⟩

/-- What stands before the first mark holds none. -/
theorem Before.not_infix {mark u t : Text} (h : Before mark u t) (hne : mark ≠ []) :
    ¬mark <:+: u := by
  rintro ⟨s, r, rfl⟩
  obtain ⟨⟨r', ht⟩, hmin⟩ := h
  have hle := (hmin s (r ++ mark ++ r') (by rw [ht]; simp only [List.append_assoc])).length_le
  have hpos := List.length_pos_iff.mpr hne
  simp only [List.length_append] at hle
  omega

theorem before?_eq_some_iff {mark t u : Text} : before? mark t = some u ↔ Before mark u t := by
  induction t generalizing u with
  | nil =>
    cases mark with
    | nil => simp [before?, Before]
    | cons c m => simp [before?, Before]
  | cons c r ih =>
    unfold before?
    split
    · rename_i h
      have hp := before_nil_iff.mpr (List.isPrefixOf_iff_prefix.mp h)
      constructor
      · intro he
        rw [← Option.some.inj he]; exact hp
      · intro hb
        rw [hp.unique hb]
    · rename_i h
      rw [before_cons_iff (fun hp => h (List.isPrefixOf_iff_prefix.mpr hp))]
      simp only [Option.map_eq_some_iff, ih]
      exact ⟨fun ⟨v, hv, he⟩ => ⟨v, he.symm, hv⟩, fun ⟨v, he, hv⟩ => ⟨v, hv, he.symm⟩⟩

theorem before?_eq_none_iff {mark t : Text} : before? mark t = none ↔ ¬mark <:+: t := by
  constructor
  · rintro h ⟨s, r, he⟩
    induction s generalizing t with
    | nil =>
      have hb : Before mark [] t := before_nil_iff.mpr ⟨r, he⟩
      rw [before?_eq_some_iff.mpr hb] at h
      cases h
    | cons c s ih =>
      rw [← he, List.cons_append, List.cons_append, before?] at h
      split at h
      · cases h
      · exact ih (Option.map_eq_none_iff.mp h) rfl
  · intro h
    cases hb : before? mark t with
    | none => rfl
    | some u =>
      obtain ⟨⟨r, hr⟩, -⟩ := before?_eq_some_iff.mp hb
      exact absurd ⟨u, r, hr.symm⟩ h

theorem hasPart_iff {part t : Text} : hasPart part t = true ↔ part <:+: t := by
  unfold hasPart
  rw [Option.isSome_iff_ne_none, ne_eq, before?_eq_none_iff, Classical.not_not]

theorem after?_eq_some_iff {start t r : Text} : after? start t = some r ↔ t = start ++ r := by
  unfold after?
  split
  · rename_i h
    obtain ⟨s, rfl⟩ := List.isPrefixOf_iff_prefix.mp h
    simp
  · rename_i h
    constructor
    · nofun
    · intro he
      subst he
      exact absurd (List.isPrefixOf_iff_prefix.mpr (List.prefix_append start r)) h

theorem after?_eq_none_iff {start t : Text} : after? start t = none ↔ ¬start <+: t := by
  unfold after?
  split
  · rename_i h
    simp [List.isPrefixOf_iff_prefix.mp h]
  · rename_i h
    simpa [List.isPrefixOf_iff_prefix] using h

theorem splitFirst?_eq_some_iff {c : Char} {t a b : Text} :
    splitFirst? c t = some (a, b) ↔ t = a ++ c :: b ∧ c ∉ a := by
  induction t generalizing a b with
  | nil => simp [splitFirst?]
  | cons d r ih =>
    unfold splitFirst?
    split
    · rename_i h
      subst h
      cases a with
      | nil => simp
      | cons e a =>
        simp only [Option.some.injEq, Prod.mk.injEq, List.cons_append, List.cons.injEq,
          List.mem_cons, not_or]
        exact ⟨nofun, fun h => absurd h.1.1 h.2.1⟩
    · rename_i h
      cases a with
      | nil => simpa [Prod.ext_iff] using fun he => absurd he h
      | cons e a =>
        simp only [Option.map_eq_some_iff, Prod.exists, ih, Prod.mk.injEq, List.cons.injEq,
          List.cons_append, List.mem_cons, not_or]
        constructor
        · intro hr
          obtain ⟨x, y, ⟨rfl, hx⟩, ⟨rfl, rfl⟩, rfl⟩ := hr
          exact ⟨⟨rfl, rfl⟩, fun he => h he.symm, hx⟩
        · intro hp
          obtain ⟨⟨rfl, rfl⟩, -, hx⟩ := hp
          exact ⟨a, b, ⟨rfl, hx⟩, ⟨rfl, rfl⟩, rfl⟩

theorem splitFirst?_eq_none_iff {c : Char} {t : Text} : splitFirst? c t = none ↔ c ∉ t := by
  constructor
  · intro h hm
    obtain ⟨a, b, rfl, ha⟩ := List.eq_append_cons_of_mem hm
    rw [splitFirst?_eq_some_iff.mpr ⟨rfl, ha⟩] at h
    cases h
  · intro h
    cases hf : splitFirst? c t with
    | none => rfl
    | some p =>
      obtain ⟨he, -⟩ := splitFirst?_eq_some_iff.mp hf
      exact absurd (he ▸ List.mem_append_right _ (List.mem_cons_self ..)) h

theorem cutAt_eq_splitOnP (p : Char → Bool) (t : Text) : cutAt p t = t.splitOnP p := by
  induction t with
  | nil => rfl
  | cons c r ih =>
    unfold cutAt
    rw [List.splitOnP_cons_eq_if_modifyHead]
    split
    · rw [ih]
    · rw [ih]
      obtain ⟨w, ws, hw⟩ := List.exists_cons_of_ne_nil (List.splitOnP_ne_nil p r)
      rw [hw, List.modifyHead_cons]

theorem cutAt_eq_splitOn (c : Char) (t : Text) : cutAt (· == c) t = t.splitOn c := by
  rw [cutAt_eq_splitOnP, List.splitOn_eq_splitOnP]

theorem not_mem_of_mem_cutAt {sep : Char} {t w : Text} (h : w ∈ cutAt (· == sep) t) :
    sep ∉ w := by
  rw [cutAt_eq_splitOn] at h
  induction t generalizing w with
  | nil => rw [List.splitOn_nil, List.mem_singleton] at h; rw [h]; nofun
  | cons c r ih =>
    rw [List.splitOn_cons_eq_if_modifyHead] at h
    split at h
    · rcases List.mem_cons.mp h with rfl | h
      · nofun
      · exact ih h
    · rename_i hc
      obtain ⟨v, vs, hv⟩ := List.exists_cons_of_ne_nil (List.splitOn_ne_nil sep r)
      rw [hv, List.modifyHead_cons] at h
      rcases List.mem_cons.mp h with rfl | h
      · have hr : sep ∉ v := ih (by rw [hv]; exact List.mem_cons_self ..)
        rw [List.mem_cons, not_or]
        exact ⟨fun he => hc (by rw [← he]; exact beq_self_eq_true sep), hr⟩
      · exact ih (by rw [hv]; exact List.mem_cons_of_mem _ h)

/-! ## Putting together -/

theorem intercalate_append {sep : Text} {as bs : List Text} (ha : as ≠ []) (hb : bs ≠ []) :
    sep.intercalate (as ++ bs) = sep.intercalate as ++ sep ++ sep.intercalate bs := by
  induction as with
  | nil => exact absurd rfl ha
  | cons a as ih =>
    by_cases hne : as = []
    · subst hne
      rw [List.singleton_append, List.intercalate_cons_of_ne_nil hb, List.intercalate_singleton,
        List.append_assoc]
    · rw [List.cons_append, List.intercalate_cons_of_ne_nil (by simp [hne]), ih hne,
        List.intercalate_cons_of_ne_nil hne]
      simp only [List.append_assoc]

theorem intercalate_cons_eq_flatMap (sep s : Text) (ss : List Text) :
    sep.intercalate (s :: ss) = s ++ ss.flatMap (sep ++ ·) := by
  induction ss generalizing s with
  | nil => rw [List.intercalate_singleton, List.flatMap_nil, List.append_nil]
  | cons t ss ih =>
    rw [List.intercalate_cons_cons, ih, List.flatMap_cons, List.append_assoc, List.append_assoc]

theorem mem_intercalate {sep : Text} {ss : List Text} {c : Char} (h : c ∈ sep.intercalate ss) :
    c ∈ sep ∨ ∃ s ∈ ss, c ∈ s := by
  induction ss with
  | nil => exact absurd h List.not_mem_nil
  | cons s ss ih =>
    by_cases hne : ss = []
    · subst hne
      rw [List.intercalate_singleton] at h
      exact .inr ⟨s, List.mem_cons_self .., h⟩
    · rw [List.intercalate_cons_of_ne_nil hne, List.mem_append, List.mem_append] at h
      rcases h with (h | h) | h
      · exact .inr ⟨s, List.mem_cons_self .., h⟩
      · exact .inl h
      · rcases ih h with h | ⟨t, ht, hc⟩
        · exact .inl h
        · exact .inr ⟨t, List.mem_cons_of_mem _ ht, hc⟩

/-- A mark does not run over a character that it does not hold. -/
theorem infix_of_append_cons {mark a b : Text} {c : Char} (hc : c ∉ mark)
    (h : mark <:+: a ++ c :: b) : mark <:+: a ∨ mark <:+: b := by
  have hnil : ∀ p : Text, c ∉ p → p <+: c :: b → p = [] := by
    intro p hp hpre
    rcases List.prefix_cons_iff.mp hpre with he | ⟨q, rfl, -⟩
    · exact he
    · exact absurd (List.mem_cons_self ..) hp
  rcases List.infix_append_iff.mp h with h | h | ⟨m, n, rfl, hm, hn⟩
  · exact .inl h
  · rcases List.infix_cons_iff.mp h with hp | hi
    · rw [hnil mark hc hp]
      exact .inl List.nil_infix
    · exact .inr hi
  · obtain rfl := hnil n (fun hm => hc (List.mem_append_right m hm)) hn
    rw [List.append_nil]
    exact .inl hm.isInfix

theorem exists_infix_of_intercalate {mark : Text} {sep : Char} (hs : sep ∉ mark) (hne : mark ≠ [])
    {ss : List Text} (h : mark <:+: [sep].intercalate ss) : ∃ s ∈ ss, mark <:+: s := by
  induction ss with
  | nil => exact absurd (List.eq_nil_of_infix_nil h) hne
  | cons s ss ih =>
    by_cases hss : ss = []
    · subst hss
      rw [List.intercalate_singleton] at h
      exact ⟨s, List.mem_cons_self .., h⟩
    · rw [List.intercalate_cons_of_ne_nil hss, List.append_assoc, List.singleton_append] at h
      rcases infix_of_append_cons hs h with h | h
      · exact ⟨s, List.mem_cons_self .., h⟩
      · obtain ⟨t, ht, hi⟩ := ih h
        exact ⟨t, List.mem_cons_of_mem _ ht, hi⟩

theorem intercalate_cutAt (sep : Char) (t : Text) :
    [sep].intercalate (cutAt (· == sep) t) = t := by
  rw [cutAt_eq_splitOn]
  exact List.intercalate_splitOn sep

theorem mem_intercalate_of_mem {sep : Text} {ss : List Text} {s : Text} {c : Char} (hs : s ∈ ss)
    (h : c ∈ s) : c ∈ sep.intercalate ss := by
  induction ss with
  | nil => cases hs
  | cons t ss ih =>
    by_cases hne : ss = []
    · subst hne
      rw [List.mem_singleton.mp hs] at h
      rwa [List.intercalate_singleton]
    · rw [List.intercalate_cons_of_ne_nil hne, List.mem_append, List.mem_append]
      rcases List.mem_cons.mp hs with rfl | hs
      · exact .inl (.inl h)
      · exact .inr (ih hs)

/-- No piece holds a character that the text does not. -/
theorem mem_of_mem_cutAt {sep c : Char} {t w : Text} (hw : w ∈ cutAt (· == sep) t) (h : c ∈ w) :
    c ∈ t := by
  rw [← intercalate_cutAt sep t]
  exact mem_intercalate_of_mem hw h

end Packaging.Text
