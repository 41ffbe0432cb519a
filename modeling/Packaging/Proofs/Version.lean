import Packaging.Proofs.Text.Cut
import Packaging.Proofs.Text.Trim
import Packaging.Version

/-! The two forms of a version. A text without brackets is its own number and has release 1; any
other ends with a bracket, and its first bracket stands between the number and the release. What is
read is a number and a release that are read again from the two of them put together. The number in
front of brackets may hold a closing one, and but for that brackets stand nowhere else. -/

namespace Packaging.Version

open Text (trim)

/-- The trimmed text is read as a number and a release. -/
inductive Splits : Text → Text → Text → Prop
  | bare {t : Text} : t ≠ [] → '[' ∉ t → ']' ∉ t → Splits t t ['1']
  | bracketed {a b : Text} : '[' ∉ a → trim a ≠ [] → trim b ≠ [] →
      (∀ c ∈ trim b, isBracket c = false) → Splits (a ++ '[' :: (b ++ [']'])) (trim a) (trim b)

theorem split?_eq_some_iff {t n r : Text} : split? t = some (n, r) ↔ Splits (trim t) n r := by
  generalize hs : trim t = s
  unfold split?
  rw [hs]
  constructor
  · intro h
    cases hf : Text.splitFirst? '[' s with
    | none =>
      have hopen := Text.splitFirst?_eq_none_iff.mp hf
      simp only [hf, Option.ite_none_left_eq_some, Bool.or_eq_true, List.isEmpty_iff,
        List.contains_iff_mem, not_or, Option.some.injEq, Prod.mk.injEq] at h
      obtain ⟨⟨hne, hclose⟩, rfl, rfl⟩ := h
      exact .bare hne hopen hclose
    | some p =>
      obtain ⟨a, after⟩ := p
      obtain ⟨rfl, ha⟩ := Text.splitFirst?_eq_some_iff.mp hf
      simp only [hf] at h
      split at h
      · rename_i hl
        obtain ⟨b, rfl⟩ := List.getLast?_eq_some_iff.mp hl
        simp only [List.dropLast_concat, Option.ite_none_left_eq_some, Bool.or_eq_true,
          List.isEmpty_iff, List.any_eq_true, not_or, not_exists, not_and, Bool.not_eq_true,
          Option.some.injEq, Prod.mk.injEq] at h
        obtain ⟨⟨⟨hn, hr⟩, hb⟩, rfl, rfl⟩ := h
        exact .bracketed ha hn hr hb
      · cases h
  · intro h
    cases h with
    | bare hne hopen hclose => simp [Text.splitFirst?_eq_none_iff.mpr hopen, hne, hclose]
    | @bracketed a b ha hn hr hb =>
      have hf : Text.splitFirst? '[' (a ++ '[' :: (b ++ [']'])) = some (a, b ++ [']']) :=
        Text.splitFirst?_eq_some_iff.mpr ⟨rfl, ha⟩
      simp only [hf, List.getLast?_concat, List.dropLast_concat, if_true]
      rw [if_neg]
      simpa [hn, hr] using hb

/-- The number with the release in brackets. -/
def composed (n r : Text) : Text := n ++ '[' :: (r ++ [']'])

/-! ## Brackets -/

/-- The forms of a version in which brackets stand around the release and nowhere else. -/
inductive Form : Text → Text → Text → Prop
  | bare {v : Text} : v ≠ [] → (∀ c ∈ v, isBracket c = false) → Form v v ['1']
  | bracketed {v r : Text} : trim v ≠ [] → trim r ≠ [] → (∀ c ∈ v, isBracket c = false) →
      (∀ c ∈ r, isBracket c = false) → Form (composed v r) (trim v) (trim r)

theorem unbracketed_iff {t : Text} :
    (∀ c ∈ t, isBracket c = false) ↔ '[' ∉ t ∧ ']' ∉ t := by
  constructor
  · intro h
    exact ⟨fun hm => absurd (h _ hm) (by decide), fun hm => absurd (h _ hm) (by decide)⟩
  · rintro ⟨hopen, hclose⟩ c hc
    have h1 : c ≠ '[' := fun he => hopen (he ▸ hc)
    have h2 : c ≠ ']' := fun he => hclose (he ▸ hc)
    simp [isBracket, h1, h2]

/-- The readable texts that are of neither form are those with a closing bracket in the number. -/
theorem form_iff {t n r : Text} : Form t n r ↔ Splits t n r ∧ ']' ∉ n := by
  have hclose : Text.isBlank ']' = false := by decide
  have hopen : Text.isBlank '[' = false := by decide
  constructor
  · intro h
    cases h with
    | bare hne hv =>
      obtain ⟨h1, h2⟩ := unbracketed_iff.mp hv
      exact ⟨.bare hne h1 h2, h2⟩
    | @bracketed v r hn hr hv hb =>
      obtain ⟨h1, h2⟩ := unbracketed_iff.mp hv
      refine ⟨.bracketed h1 hn hr fun c hc => hb c (Text.mem_of_mem_trim hc), ?_⟩
      rwa [Text.mem_trim_iff hclose]
  · rintro ⟨h, hn⟩
    cases h with
    | bare hne h1 h2 => exact .bare hne (unbracketed_iff.mpr ⟨h1, h2⟩)
    | @bracketed a b ha hn' hr hb =>
      rw [Text.mem_trim_iff hclose] at hn
      have hb := unbracketed_iff.mp hb
      rw [Text.mem_trim_iff hclose, Text.mem_trim_iff hopen] at hb
      exact .bracketed hn' hr (unbracketed_iff.mpr ⟨ha, hn⟩) (unbracketed_iff.mpr hb)

/-! ## Versions put together -/

/-- A number and a release that stand together as they are. -/
structure Parts (n r : Text) : Prop where
  number_ne_nil : n ≠ []
  number_trimmed : Text.Trimmed n
  number_plain : '[' ∉ n
  release_ne_nil : r ≠ []
  release_trimmed : Text.Trimmed r
  release_plain : ∀ c ∈ r, isBracket c = false

theorem parts_of_splits {t n r : Text} (ht : Text.Trimmed t) (h : Splits t n r) : Parts n r := by
  cases h with
  | bare hne hopen _ =>
    exact ⟨hne, ht, hopen, List.cons_ne_nil _ _, by decide, List.forall_mem_singleton.mpr rfl⟩
  | @bracketed a b ha hn hr hb =>
    exact ⟨hn, Text.trimmed_trim a, fun hm => ha (Text.mem_of_mem_trim hm), hr,
      Text.trimmed_trim b, hb⟩

theorem Parts.trimmed_composed {n r : Text} (h : Parts n r) : Text.Trimmed (composed n r) := by
  refine Text.trimmed_append h.number_trimmed.head ?_ h.number_ne_nil (List.cons_ne_nil _ _)
  intro c hc
  rw [← List.cons_append, List.getLast?_concat] at hc
  obtain rfl := Option.some.inj hc
  decide

theorem Parts.split?_composed {n r : Text} (h : Parts n r) :
    split? (composed n r) = some (n, r) := by
  have hn := h.number_trimmed.trim_eq
  have hr := h.release_trimmed.trim_eq
  rw [split?_eq_some_iff, h.trimmed_composed.trim_eq]
  have hs : Splits (composed n r) (trim n) (trim r) := by
    refine .bracketed h.number_plain ?_ ?_ ?_
    · rw [hn]
      exact h.number_ne_nil
    · rw [hr]
      exact h.release_ne_nil
    · rw [hr]
      exact h.release_plain
  rwa [hn, hr] at hs

/-- A version is read from the texts that split into a number and a release. They are those of the
two forms and the ones with a closing bracket in the number, and put together the parts of each are
read as what they are. -/
theorem split?_reads_forms (t n r : Text) :
    (split? t = some (n, r) ↔ Splits (trim t) n r) ∧
    (Form (trim t) n r ↔ split? t = some (n, r) ∧ ']' ∉ n) ∧
    (split? t = some (n, r) → split? (composed n r) = some (n, r)) := by
  refine ⟨split?_eq_some_iff, ?_, ?_⟩
  · rw [split?_eq_some_iff]
    exact form_iff
  · intro h
    exact (parts_of_splits (Text.trimmed_trim t) (split?_eq_some_iff.mp h)).split?_composed

theorem split?_reads_forms_spacedVersion :
    split? " 2.0 [ 3b ]".toList = some ("2.0".toList, "3b".toList) ∧
    Form (trim " 2.0 [ 3b ]".toList) "2.0".toList "3b".toList ∧
    split? "2.0[3b]".toList = some ("2.0".toList, "3b".toList) := by
  have hread : split? " 2.0 [ 3b ]".toList = some ("2.0".toList, "3b".toList) := by decide
  obtain ⟨-, hform, hagain⟩ := split?_reads_forms " 2.0 [ 3b ]".toList "2.0".toList "3b".toList
  exact ⟨hread, hform.mpr ⟨hread, by decide⟩, hagain hread⟩

/-- The number takes in a closing bracket that belongs to neither form. -/
theorem split?_keeps_stray_bracket :
    split? "1]2[3]".toList = some ("1]2".toList, "3".toList) ∧
    ¬∃ n r, Form (trim "1]2[3]".toList) n r := by
  have hread : split? "1]2[3]".toList = some ("1]2".toList, "3".toList) := by decide
  refine ⟨hread, ?_⟩
  rintro ⟨n, r, h⟩
  obtain ⟨hs, hn⟩ := form_iff.mp h
  rw [← split?_eq_some_iff, hread] at hs
  obtain ⟨rfl, -⟩ := Prod.mk.inj (Option.some.inj hs)
  exact hn (by decide)

/-! ## Versions without blanks -/

/-- A version without blanks is its two parts put together, or a number alone. -/
structure Exact (v : Version) : Prop where
  number_ne_nil : v.number ≠ []
  release_ne_nil : v.release ≠ []
  number_word : ∀ c ∈ v.number, Text.isBlank c = false
  release_word : ∀ c ∈ v.release, Text.isBlank c = false
  release_plain : ∀ c ∈ v.release, isBracket c = false
  composed : v.written = v.number ++ '[' :: (v.release ++ [']']) ∨
    v.written = v.number ∧ v.release = ['1']

theorem trim_of_word {t : Text} (h : ∀ c ∈ t, Text.isBlank c = false) : trim t = t :=
  Text.Trimmed.trim_eq ⟨fun c hc => h c (List.mem_of_mem_head? hc),
    fun c hc => h c (List.mem_of_getLast? hc)⟩

theorem exact_of_ofText? {t : Text} {v : Version} (ht : ∀ c ∈ t, Text.isBlank c = false)
    (h : ofText? t = some v) : v.Exact := by
  obtain ⟨⟨n, r⟩, hs, rfl⟩ := Option.map_eq_some_iff.mp h
  have hs := split?_eq_some_iff.mp hs
  rw [trim_of_word ht] at hs
  cases hs with
  | bare hne _ _ =>
    exact ⟨hne, List.cons_ne_nil _ _, ht, List.forall_mem_singleton.mpr rfl,
      List.forall_mem_singleton.mpr rfl, .inr ⟨rfl, rfl⟩⟩
  | @bracketed a b _ hn hr hb =>
    have ha : ∀ c ∈ a, Text.isBlank c = false := fun c hc => ht c (List.mem_append_left _ hc)
    have hb' : ∀ c ∈ b, Text.isBlank c = false := fun c hc => ht c (by simp [hc])
    rw [trim_of_word ha] at hn ⊢
    rw [trim_of_word hb'] at hr hb ⊢
    exact ⟨hn, hr, ha, hb', hb, .inl rfl⟩

end Packaging.Version
