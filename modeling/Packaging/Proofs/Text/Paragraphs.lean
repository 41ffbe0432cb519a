import Packaging.Proofs.Text.Lines
import Packaging.Text.Items

/-! Paragraphs in normal form: trimmed lines with at most one empty line in a row, and none at
either end. Reading gives this form, and a text whose trimmed lines have it already reads as just
them. -/

namespace Packaging.Text

/-- An empty line stands only in front of a line that is not empty. -/
inductive Squeezed : List Text → Prop
  | nil : Squeezed []
  | line {l : Text} {ls : List Text} : l ≠ [] → Squeezed ls → Squeezed (l :: ls)
  | gap {l : Text} {ls : List Text} : l ≠ [] → Squeezed (l :: ls) → Squeezed ([] :: l :: ls)

theorem squeeze_line {l : Text} (h : l ≠ []) (ls : List Text) :
    squeeze (l :: ls) = l :: squeeze ls := by
  obtain ⟨c, r, rfl⟩ := List.exists_cons_of_ne_nil h
  rw [squeeze]
  nofun

theorem Squeezed.squeeze_eq {ls : List Text} (h : Squeezed ls) : squeeze ls = ls := by
  induction h with
  | nil => rfl
  | line hl _ ih => rw [squeeze_line hl, ih]
  | @gap l ls hl _ ih =>
    obtain ⟨c, r, rfl⟩ := List.exists_cons_of_ne_nil hl
    unfold squeeze
    rw [ih]

theorem squeezed_squeeze (ls : List Text) : Squeezed (squeeze ls) := by
  induction ls with
  | nil => exact .nil
  | cons l ls ih =>
    by_cases hl : l = []
    · subst hl
      unfold squeeze
      split
      · exact .nil
      · rename_i rest he
        rwa [he] at ih
      · rename_i hn hg
        obtain ⟨m, ms, hm⟩ := List.exists_cons_of_ne_nil hn
        rw [hm] at ih ⊢
        refine .gap ?_ ih
        intro hs
        subst hs
        exact hg ms hm
    · rw [squeeze_line hl]
      exact .line hl ih

theorem Squeezed.getLast? {ls : List Text} (h : Squeezed ls) : ls.getLast? ≠ some [] := by
  induction h with
  | nil => nofun
  | @line l ls hl _ ih =>
    cases ls with
    | nil => simpa using hl
    | cons m ms => rwa [List.getLast?_cons_cons]
  | gap _ _ ih => rwa [List.getLast?_cons_cons]

/-- No two empty lines stand next to each other. -/
theorem Squeezed.isChain {ls : List Text} (h : Squeezed ls) :
    ls.IsChain fun a b => a ≠ [] ∨ b ≠ [] := by
  induction h with
  | nil => exact .nil
  | @line l ls hl _ ih =>
    cases ls with
    | nil => exact .singleton l
    | cons m ls => exact .cons_cons (.inl hl) ih
  | gap hl _ ih => exact .cons_cons (.inr hl) ih

theorem mem_of_mem_squeeze {ls : List Text} {l : Text} (h : l ∈ squeeze ls) : l ∈ ls := by
  induction ls with
  | nil => cases h
  | cons m ls ih =>
    by_cases hm : m = []
    · subst hm
      unfold squeeze at h
      split at h
      · cases h
      · rename_i rest he
        rcases List.mem_cons.mp h with rfl | h
        · exact List.mem_cons_self ..
        · exact List.mem_cons_of_mem _ (ih (by rw [he]; exact List.mem_cons_of_mem _ h))
      · rcases List.mem_cons.mp h with rfl | h
        · exact List.mem_cons_self ..
        · exact List.mem_cons_of_mem _ (ih h)
    · rw [squeeze_line hm] at h
      rcases List.mem_cons.mp h with rfl | h
      · exact List.mem_cons_self ..
      · exact List.mem_cons_of_mem _ (ih h)

/-- Lines that paragraphs are kept as. -/
structure Paragraphs (ls : List Text) : Prop where
  squeezed : Squeezed ls
  head : ls.head? ≠ some []
  trimmed : ∀ l ∈ ls, Trimmed l
  feedless : ∀ l ∈ ls, '\n' ∉ l

theorem Squeezed.dropWhile {ls : List Text} (h : Squeezed ls) :
    Squeezed (ls.dropWhile (·.isEmpty)) ∧ (ls.dropWhile (·.isEmpty)).head? ≠ some [] := by
  cases h with
  | nil => exact ⟨.nil, nofun⟩
  | @line l ls hl hs =>
    rw [List.dropWhile_cons_of_neg (by simpa using hl)]
    exact ⟨.line hl hs, by simpa using hl⟩
  | @gap l ls hl hs =>
    rw [List.dropWhile_cons_of_pos rfl, List.dropWhile_cons_of_neg (by simpa using hl)]
    exact ⟨hs, by simpa using hl⟩

theorem paragraphs_paragraphLines (t : Text) : Paragraphs (paragraphLines t) := by
  have hsub : ∀ l ∈ paragraphLines t, ∃ m ∈ lines t, trim m = l := fun l hl =>
    List.mem_map.mp (mem_of_mem_squeeze ((List.dropWhile_suffix _).subset hl))
  obtain ⟨hs, hh⟩ := (squeezed_squeeze ((lines t).map trim)).dropWhile
  refine ⟨hs, hh, ?_, ?_⟩
  · intro l hl
    obtain ⟨m, -, rfl⟩ := hsub l hl
    exact trimmed_trim m
  · intro l hl hn
    obtain ⟨m, hm, rfl⟩ := hsub l hl
    exact feedless_of_mem_lines hm (mem_of_mem_trim hn)

/-- Lines that are read as themselves once they are trimmed. -/
theorem Paragraphs.paragraphLines_eq {ls : List Text} (h : Paragraphs ls) {t : Text}
    (ht : (lines t).map trim = ls) : paragraphLines t = ls := by
  unfold paragraphLines
  rw [ht, h.squeezed.squeeze_eq]
  cases ls with
  | nil => rfl
  | cons l ls =>
    have hl : l ≠ [] := by
      intro he
      subst he
      exact h.head rfl
    exact List.dropWhile_cons_of_neg (by simpa using hl)

theorem Paragraphs.getLast? {ls : List Text} (h : Paragraphs ls) : ls.getLast? ≠ some [] :=
  h.squeezed.getLast?

theorem Paragraphs.ownLine {ls : List Text} (h : Paragraphs ls) {l : Text} (hl : l ∈ ls) :
    OwnLine l := .of_trimmed (h.feedless l hl) (h.trimmed l hl)

end Packaging.Text
