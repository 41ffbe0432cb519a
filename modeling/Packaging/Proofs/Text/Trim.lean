import Mathlib.Data.List.DropRight
import Packaging.Text.Basic

/-! Trimming takes the blanks off both ends of a text and nothing else: what is left neither starts
nor ends with a blank, and a text of that form is left as it is. -/

namespace Packaging.Text

/-- All characters are blank. -/
def AllBlank (t : Text) : Prop := ∀ c ∈ t, isBlank c = true

/-- The text neither starts nor ends with a blank. -/
structure Trimmed (t : Text) : Prop where
  head : ∀ c ∈ t.head?, isBlank c = false
  last : ∀ c ∈ t.getLast?, isBlank c = false

theorem AllBlank.append {a b : Text} (ha : AllBlank a) (hb : AllBlank b) : AllBlank (a ++ b) := by
  intro c hc
  rcases List.mem_append.mp hc with h | h
  · exact ha c h
  · exact hb c h

theorem allBlank_nil : AllBlank [] := by intro c hc; cases hc

theorem allBlank_singleton {c : Char} (h : isBlank c = true) : AllBlank [c] := by
  intro d hd
  rw [List.mem_singleton.mp hd]; exact h

theorem allBlank_spaces : AllBlank [' ', ' ', ' ', ' '] := by
  intro c hc
  simp only [List.mem_cons, List.not_mem_nil, or_false, or_self] at hc
  subst hc; decide

@[simp] theorem isBlank_newline : isBlank '\n' = true := by decide

theorem isBlank_slash : isBlank '/' = false := by decide

theorem trimmed_nil : Trimmed [] := ⟨nofun, nofun⟩

theorem trimEnd_eq_rdropWhile (t : Text) : trimEnd t = t.rdropWhile isBlank := rfl

/-! ## One end at a time -/

theorem trimStart_append {a : Text} (ha : AllBlank a) (t : Text) :
    trimStart (a ++ t) = trimStart t := List.dropWhile_append_of_pos ha

theorem trimStart_of_head {t : Text} (h : ∀ c ∈ t.head?, isBlank c = false) :
    trimStart t = t := by
  cases t with
  | nil => rfl
  | cons c r => exact List.dropWhile_cons_of_neg (by simp [h c rfl])

theorem trimStart_append_of_ne_nil {t : Text} (h : trimStart t ≠ []) (u : Text) :
    trimStart (t ++ u) = trimStart t ++ u := by
  unfold trimStart at h ⊢
  rw [List.dropWhile_append, if_neg (by simpa using h)]

/-- A run of blanks is cut off in one way only, if none follows it on either side. -/
theorem AllBlank.append_inj {a b s t : Text} (ha : AllBlank a) (hb : AllBlank b)
    (hs : ∀ c ∈ s.head?, isBlank c = false) (ht : ∀ c ∈ t.head?, isBlank c = false)
    (h : a ++ s = b ++ t) : a = b ∧ s = t := by
  obtain rfl : s = t := by
    have := congrArg trimStart h
    rwa [trimStart_append ha, trimStart_append hb, trimStart_of_head hs,
      trimStart_of_head ht] at this
  exact ⟨List.append_cancel_right h, rfl⟩

theorem trimEnd_append {b : Text} (hb : AllBlank b) (t : Text) : trimEnd (t ++ b) = trimEnd t := by
  unfold trimEnd
  rw [List.reverse_append, List.dropWhile_append_of_pos]
  intro c hc
  exact hb c (List.mem_reverse.mp hc)

theorem trimEnd_of_last {t : Text} (h : ∀ c ∈ t.getLast?, isBlank c = false) :
    trimEnd t = t := by
  rw [trimEnd_eq_rdropWhile, List.rdropWhile_eq_self_iff]
  intro hne
  simp [h _ (List.getLast?_eq_getLast_of_ne_nil hne)]

theorem head_trimStart (t : Text) : ∀ c ∈ (trimStart t).head?, isBlank c = false := by
  intro c hc
  have h := List.head?_dropWhile_not isBlank t
  unfold trimStart at hc
  rw [Option.mem_def.mp hc] at h
  exact h

theorem exists_trimStart (t : Text) : ∃ a, AllBlank a ∧ t = a ++ trimStart t :=
  ⟨t.takeWhile isBlank, fun _ hc => List.mem_takeWhile_imp hc,
    (List.takeWhile_append_dropWhile ..).symm⟩

theorem exists_trimEnd (t : Text) : ∃ b, AllBlank b ∧ t = trimEnd t ++ b := by
  obtain ⟨a, ha, he⟩ := exists_trimStart t.reverse
  refine ⟨a.reverse, fun c hc => ha c (List.mem_reverse.mp hc), ?_⟩
  have := congrArg List.reverse he
  simpa [trimEnd, trimStart] using this

theorem last_trimEnd (t : Text) : ∀ c ∈ (trimEnd t).getLast?, isBlank c = false := by
  intro c hc
  unfold trimEnd at hc
  rw [List.getLast?_reverse] at hc
  exact head_trimStart t.reverse c hc

theorem head?_trimEnd {t : Text} (h : trimEnd t ≠ []) : (trimEnd t).head? = t.head? := by
  obtain ⟨b, -, he⟩ := exists_trimEnd t
  conv => rhs; rw [he]
  rw [List.head?_append_of_ne_nil _ h]

/-! ## Both ends -/

theorem Trimmed.trim_eq {t : Text} (h : Trimmed t) : trim t = t := by
  unfold trim
  rw [trimStart_of_head h.head, trimEnd_of_last h.last]

theorem trimmed_trim (t : Text) : Trimmed (trim t) := by
  refine ⟨?_, last_trimEnd _⟩
  intro c hc
  have hne : trimEnd (trimStart t) ≠ [] := by
    intro he
    unfold trim at hc
    rw [he] at hc
    cases hc
  unfold trim at hc
  rw [head?_trimEnd hne] at hc
  exact head_trimStart t c hc

theorem trimmed_iff {t : Text} : Trimmed t ↔ trim t = t :=
  ⟨Trimmed.trim_eq, fun h => h ▸ trimmed_trim t⟩

instance : DecidablePred Trimmed := fun _ => decidable_of_iff _ trimmed_iff.symm

@[simp] theorem trim_trim (t : Text) : trim (trim t) = trim t := (trimmed_trim t).trim_eq

/-- A text is its trimmed form between two runs of blanks. -/
theorem exists_trim (t : Text) : ∃ a b, AllBlank a ∧ AllBlank b ∧ t = a ++ trim t ++ b := by
  obtain ⟨a, ha, he⟩ := exists_trimStart t
  obtain ⟨b, hb, hf⟩ := exists_trimEnd (trimStart t)
  refine ⟨a, b, ha, hb, ?_⟩
  unfold trim
  rw [List.append_assoc, ← hf]
  exact he

theorem trim_infix (t : Text) : trim t <:+: t := by
  obtain ⟨a, b, -, -, he⟩ := exists_trim t
  exact ⟨a, b, he.symm⟩

theorem trim_append_left {a : Text} (ha : AllBlank a) (t : Text) : trim (a ++ t) = trim t := by
  rw [trim, trimStart_append ha, trim]

theorem trim_append_right {b : Text} (hb : AllBlank b) (t : Text) : trim (t ++ b) = trim t := by
  by_cases hne : trimStart t = []
  · obtain ⟨a, ha, he⟩ := exists_trimStart t
    rw [hne, List.append_nil] at he
    have hr := trim_append_left (ha.append hb) []
    have hl := trim_append_left ha []
    rw [List.append_nil] at hr hl
    rw [he, hr, hl]
  · rw [trim, trimStart_append_of_ne_nil hne, trimEnd_append hb, trim]

/-- Behind a text that is not blank, a text is left as it is if it does not end with a blank. -/
theorem trim_append_of_last {t u : Text} (h : trim t ≠ [])
    (ht : ∀ c ∈ t.getLast?, isBlank c = false) (hu : ∀ c ∈ u.getLast?, isBlank c = false) :
    trim (t ++ u) = trim t ++ u := by
  have hne : trimStart t ≠ [] := by
    intro he
    rw [trim, he] at h
    exact h rfl
  have hs : ∀ c ∈ (trimStart t).getLast?, isBlank c = false := by
    obtain ⟨a, -, he⟩ := exists_trimStart t
    rwa [he, List.getLast?_append_of_ne_nil _ hne] at ht
  rw [trim, trim, trimStart_append_of_ne_nil hne, trimEnd_of_last hs, trimEnd_of_last]
  by_cases hnil : u = []
  · rwa [hnil, List.append_nil]
  · rwa [List.getLast?_append_of_ne_nil _ hnil]

theorem trim_cons {c : Char} (h : isBlank c = true) (t : Text) : trim (c :: t) = trim t :=
  trim_append_left (allBlank_singleton h) t

theorem trim_concat {c : Char} (h : isBlank c = true) (t : Text) : trim (t ++ [c]) = trim t :=
  trim_append_right (allBlank_singleton h) t

theorem trim_trimEnd (t : Text) : trim (trimEnd t) = trim t := by
  obtain ⟨b, hb, he⟩ := exists_trimEnd t
  conv => rhs; rw [he, trim_append_right hb]

/-- What stands between two runs of blanks is found by trimming, if it is trimmed. -/
theorem Trimmed.trim_between {t : Text} (h : Trimmed t) {a b : Text} (ha : AllBlank a)
    (hb : AllBlank b) : trim (a ++ t ++ b) = t := by
  rw [trim_append_right hb, trim_append_left ha, h.trim_eq]

theorem trim_eq_nil_iff {t : Text} : trim t = [] ↔ AllBlank t := by
  constructor
  · intro h
    obtain ⟨a, b, ha, hb, he⟩ := exists_trim t
    rw [he, h, List.append_nil]
    exact ha.append hb
  · intro h
    have := trim_append_left h []
    rwa [List.append_nil] at this

theorem mem_of_mem_trim {c : Char} {t : Text} (h : c ∈ trim t) : c ∈ t := by
  obtain ⟨a, b, -, -, he⟩ := exists_trim t
  rw [he]
  simp [h]

theorem mem_trim {c : Char} {t : Text} (hb : isBlank c = false) (h : c ∈ t) : c ∈ trim t := by
  obtain ⟨a, b, ha, hb', he⟩ := exists_trim t
  rw [he, List.mem_append, List.mem_append] at h
  rcases h with (h | h) | h
  · rw [ha c h] at hb
    cases hb
  · exact h
  · rw [hb' c h] at hb
    cases hb

theorem mem_trim_iff {c : Char} (h : isBlank c = false) {t : Text} : c ∈ trim t ↔ c ∈ t :=
  ⟨mem_of_mem_trim, mem_trim h⟩

/-- A first character that is not blank stays the first. -/
theorem head_prefix_trim {c : Char} (h : isBlank c = false) (t : Text) : [c] <+: trim (c :: t) := by
  have hs : trimStart (c :: t) = c :: t := List.dropWhile_cons_of_neg (by rw [h]; nofun)
  unfold trim
  rw [hs]
  obtain ⟨b, hb, he⟩ := exists_trimEnd (c :: t)
  cases ht : trimEnd (c :: t) with
  | nil =>
    rw [ht, List.nil_append] at he
    have := hb c (by rw [← he]; exact List.mem_cons_self ..)
    rw [h] at this
    cases this
  | cons d r =>
    rw [ht] at he
    obtain ⟨rfl, -⟩ := List.cons.inj he
    exact ⟨r, rfl⟩

/-- Between a first and a last character that are not blank nothing is trimmed. -/
theorem trimmed_append {a b : Text} (ha : ∀ c ∈ a.head?, isBlank c = false)
    (hb : ∀ c ∈ b.getLast?, isBlank c = false) (hne : a ≠ []) (hne' : b ≠ []) :
    Trimmed (a ++ b) := by
  refine ⟨?_, ?_⟩
  · rw [List.head?_append_of_ne_nil _ hne]; exact ha
  · rw [List.getLast?_append_of_ne_nil _ hne']; exact hb

end Packaging.Text
