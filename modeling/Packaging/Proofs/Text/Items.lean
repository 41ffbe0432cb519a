import Packaging.Proofs.Text.Lines
import Packaging.Text.Items

/-! The items of a value. Blanks around the value make no difference, and neither do blanks around
an item or lines that hold none; so the items are read back from lines, each with an item on it, and
a single item is read back from a value of its own unless it would be cut there. -/

namespace Packaging.Text

/-- The pieces between separators, trimmed, without those that nothing is left of. -/
def itemsAt (sep : Char) (t : Text) : List Text :=
  ((cutAt (· == sep) t).map trim).filter (!·.isEmpty)

theorem items_of_mem {t : Text} (h : '\n' ∈ t) : items t = itemsAt '\n' t := by
  unfold items
  rw [if_pos (List.contains_iff_mem.mpr h), itemsAt]

theorem items_of_not_mem {t : Text} (h : '\n' ∉ t) : items t = itemsAt ';' t := by
  unfold items
  rw [if_neg (fun hc => h (List.contains_iff_mem.mp hc)), itemsAt]

/-- What is left of a piece. -/
def kept (piece : Text) : List Text := if trim piece = [] then [] else [trim piece]

theorem kept_eq (piece : Text) : kept piece = ([piece].map trim).filter (!·.isEmpty) := by
  unfold kept
  split <;> simp [*]

theorem kept_trim (t : Text) : kept (trim t) = kept t := by rw [kept, trim_trim, kept]

theorem kept_blank {t : Text} (h : AllBlank t) : kept t = [] := by
  unfold kept
  rw [if_pos (trim_eq_nil_iff.mpr h)]

theorem kept_of_trimmed {t : Text} (h : Trimmed t) (hne : t ≠ []) : kept t = [t] := by
  unfold kept
  rw [h.trim_eq, if_neg hne]

theorem itemsAt_eq_flatMap (sep : Char) (t : Text) :
    itemsAt sep t = (cutAt (· == sep) t).flatMap kept := by
  unfold itemsAt
  induction cutAt (· == sep) t with
  | nil => rfl
  | cons w ws ih =>
    rw [List.flatMap_cons, ← ih, kept_eq, ← List.filter_append, ← List.map_append]
    rfl

theorem itemsAt_append (sep : Char) (a b : Text) :
    itemsAt sep (a ++ sep :: b) = itemsAt sep a ++ itemsAt sep b := by
  simp only [itemsAt_eq_flatMap, cutAt_eq_splitOn]
  rw [List.splitOn_append_cons_self, List.flatMap_append]

theorem itemsAt_of_not_mem {sep : Char} {t : Text} (h : sep ∉ t) : itemsAt sep t = kept t := by
  rw [itemsAt_eq_flatMap, cutAt_eq_splitOn, List.splitOn_eq_singleton h, List.flatMap_singleton]

theorem itemsAt_nil (sep : Char) : itemsAt sep [] = [] := itemsAt_of_not_mem List.not_mem_nil

theorem itemsAt_ended {ls : List Text} (h : ∀ l ∈ ls, '\n' ∉ l) :
    itemsAt '\n' (ended ls) = ls.flatMap kept := by
  induction ls with
  | nil => exact itemsAt_nil _
  | cons l ls ih =>
    rw [ended_cons, itemsAt_append, itemsAt_of_not_mem (h l (List.mem_cons_self ..)),
      ih fun m hm => h m (List.mem_cons_of_mem _ hm), List.flatMap_cons]

/-! ## Blanks around the value -/

theorem kept_between {a b : Text} (ha : AllBlank a) (hb : AllBlank b) (t : Text) :
    kept (a ++ t ++ b) = kept t := by
  rw [kept, trim_append_right hb, trim_append_left ha, kept]

theorem kept_eq_nil_iff {t : Text} : kept t = [] ↔ AllBlank t := by
  unfold kept
  rw [← trim_eq_nil_iff]
  split <;> simp [*]

theorem allBlank_of_itemsAt {sep : Char} (hs : isBlank sep = true) {t : Text}
    (h : itemsAt sep t = []) : AllBlank t := by
  rw [itemsAt_eq_flatMap, List.flatMap_eq_nil_iff] at h
  intro c hc
  rw [← intercalate_cutAt sep t] at hc
  rcases mem_intercalate hc with hc | ⟨w, hw, hc⟩
  · rw [List.mem_singleton.mp hc]
    exact hs
  · exact kept_eq_nil_iff.mp (h w hw) c hc

theorem exists_cutAt_concat (sep : Char) (t : Text) (c : Char) :
    ∃ ws w, cutAt (· == sep) t = ws ++ [w] ∧
      cutAt (· == sep) (t ++ [c]) = if c = sep then ws ++ [w, []] else ws ++ [w ++ [c]] := by
  induction t with
  | nil =>
    refine ⟨[], [], rfl, ?_⟩
    rw [List.nil_append, cutAt]
    by_cases hc : c = sep <;> simp [hc, cutAt]
  | cons d t ih =>
    obtain ⟨ws, w, hw, hc⟩ := ih
    rw [List.cons_append, cutAt, cutAt, hw, hc]
    by_cases hd : (d == sep) = true
    · refine ⟨[] :: ws, w, by rw [if_pos hd]; rfl, ?_⟩
      rw [if_pos hd]
      split <;> rfl
    · rw [if_neg hd, if_neg hd]
      by_cases hcs : c = sep
      · simp only [if_pos hcs]
        cases ws with
        | nil => exact ⟨[], d :: w, rfl, rfl⟩
        | cons v vs => exact ⟨(d :: v) :: vs, w, rfl, rfl⟩
      · simp only [if_neg hcs]
        cases ws with
        | nil => exact ⟨[], d :: w, rfl, rfl⟩
        | cons v vs => exact ⟨(d :: v) :: vs, w, rfl, rfl⟩

theorem itemsAt_concat {sep c : Char} (h : isBlank c = true) (t : Text) :
    itemsAt sep (t ++ [c]) = itemsAt sep t := by
  obtain ⟨ws, w, hw, hc⟩ := exists_cutAt_concat sep t c
  rw [itemsAt_eq_flatMap, itemsAt_eq_flatMap, hw, hc]
  split
  · rw [List.flatMap_append, List.flatMap_append]
    simp [kept_blank allBlank_nil]
  · have hk : kept (w ++ [c]) = kept w := by
      rw [kept, trim_concat h, kept]
    rw [List.flatMap_append, List.flatMap_append, List.flatMap_singleton, List.flatMap_singleton,
      hk]

theorem itemsAt_cons {sep c : Char} (h : isBlank c = true) (t : Text) :
    itemsAt sep (c :: t) = itemsAt sep t := by
  rw [itemsAt_eq_flatMap, itemsAt_eq_flatMap, cutAt]
  by_cases hc : (c == sep) = true
  · rw [if_pos hc, List.flatMap_cons, kept_blank allBlank_nil, List.nil_append]
  · rw [if_neg hc]
    cases hw : cutAt (· == sep) t with
    | nil =>
      have := List.splitOn_ne_nil sep t
      rw [← cutAt_eq_splitOn, hw] at this
      exact absurd rfl this
    | cons w ws =>
      have hk : kept (c :: w) = kept w := by
        rw [kept, trim_cons h, kept]
      rw [List.flatMap_cons, List.flatMap_cons, hk]

theorem itemsAt_append_right {sep : Char} {b : Text} (hb : AllBlank b) (t : Text) :
    itemsAt sep (t ++ b) = itemsAt sep t := by
  induction b generalizing t with
  | nil => rw [List.append_nil]
  | cons c b ih =>
    rw [List.append_cons, ih (fun d hd => hb d (List.mem_cons_of_mem _ hd)),
      itemsAt_concat (hb c (List.mem_cons_self ..))]

theorem itemsAt_append_left {sep : Char} {a : Text} (ha : AllBlank a) (t : Text) :
    itemsAt sep (a ++ t) = itemsAt sep t := by
  induction a with
  | nil => rfl
  | cons c a ih =>
    rw [List.cons_append, itemsAt_cons (ha c (List.mem_cons_self ..)),
      ih fun d hd => ha d (List.mem_cons_of_mem _ hd)]

theorem itemsAt_trim (sep : Char) (t : Text) : itemsAt sep (trim t) = itemsAt sep t := by
  obtain ⟨a, b, ha, hb, he⟩ := exists_trim t
  conv => rhs; rw [he, itemsAt_append_right hb, itemsAt_append_left ha]

/-! ## Every item -/

theorem mem_kept {i t : Text} (h : i ∈ kept t) : i = trim t ∧ i ≠ [] := by
  unfold kept at h
  split at h
  · cases h
  · rename_i hne
    rw [List.mem_singleton.mp h]
    exact ⟨rfl, hne⟩

theorem exists_of_mem_items {i t : Text} (h : i ∈ items t) :
    ∃ sep w, w ∈ cutAt (· == sep) t ∧ i = trim w ∧ i ≠ [] := by
  by_cases hn : '\n' ∈ t
  · rw [items_of_mem hn, itemsAt_eq_flatMap] at h
    obtain ⟨w, hw, hi⟩ := List.mem_flatMap.mp h
    exact ⟨'\n', w, hw, mem_kept hi⟩
  · rw [items_of_not_mem hn, itemsAt_eq_flatMap] at h
    obtain ⟨w, hw, hi⟩ := List.mem_flatMap.mp h
    exact ⟨';', w, hw, mem_kept hi⟩

theorem trimmed_of_mem_items {i t : Text} (h : i ∈ items t) : Trimmed i ∧ i ≠ [] := by
  obtain ⟨_, w, -, rfl, hne⟩ := exists_of_mem_items h
  exact ⟨trimmed_trim w, hne⟩

/-- A value with a line feed between its ends has more than one item, so a single item was not cut
at line feeds, and holds no semicolon. -/
theorem not_mem_of_items_singleton {i t : Text} (ht : Trimmed t) (h : items t = [i]) :
    ';' ∉ i := by
  by_cases hn : '\n' ∈ t
  · obtain ⟨a, b, rfl⟩ := List.append_of_mem hn
    rw [items_of_mem hn, itemsAt_append] at h
    have ha : itemsAt '\n' a ≠ [] := by
      intro he
      have hb := allBlank_of_itemsAt isBlank_newline he
      cases a with
      | nil => cases ht.head '\n' rfl
      | cons c a =>
        have hc := ht.head c rfl
        rw [hb c (List.mem_cons_self ..)] at hc
        cases hc
    have hb : itemsAt '\n' b ≠ [] := by
      intro he
      have hall := allBlank_of_itemsAt isBlank_newline he
      have hl := ht.last
      rw [List.getLast?_append_of_ne_nil _ (List.cons_ne_nil _ _)] at hl
      obtain ⟨c, hc⟩ : ∃ c, ('\n' :: b).getLast? = some c :=
        Option.isSome_iff_exists.mp (by rw [List.getLast?_isSome]; exact List.cons_ne_nil _ _)
      have hf := hl c hc
      rcases List.mem_cons.mp (List.mem_of_getLast? hc) with rfl | hm
      · cases hf
      · rw [hall c hm] at hf
        cases hf
    have hlen := congrArg List.length h
    rw [List.length_append, List.length_singleton] at hlen
    have h1 := List.length_pos_iff.mpr ha
    have h2 := List.length_pos_iff.mpr hb
    omega
  · have hi : i ∈ itemsAt ';' t := by
      rw [← items_of_not_mem hn, h]
      exact List.mem_singleton.mpr rfl
    rw [itemsAt_eq_flatMap] at hi
    obtain ⟨w, hw, hk⟩ := List.mem_flatMap.mp hi
    rw [(mem_kept hk).1]
    exact fun hm => not_mem_of_mem_cutAt hw (mem_of_mem_trim hm)

/-- A line feed with something on both sides is not trimmed away. -/
theorem newline_mem_trim {a b : Text} (ha : ¬AllBlank a) (hb : ¬AllBlank b) :
    '\n' ∈ trim (a ++ '\n' :: b) := by
  refine Classical.byContradiction fun hn => ?_
  have hone : (kept (trim (a ++ '\n' :: b))).length ≤ 1 := by
    unfold kept
    split <;> simp
  rw [← itemsAt_of_not_mem hn, itemsAt_trim, itemsAt_append, List.length_append] at hone
  have h1 := List.length_pos_iff.mpr (mt (allBlank_of_itemsAt isBlank_newline) ha)
  have h2 := List.length_pos_iff.mpr (mt (allBlank_of_itemsAt isBlank_newline) hb)
  omega

end Packaging.Text
