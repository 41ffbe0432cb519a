import Packaging.Proofs.Path.Spelled
import Packaging.Proofs.Text.Weight

/-! The weight of a path is that of its components: slashes and dots weigh nothing, and a name
weighs what its text does. So paths that agree weigh the same, joining adds weights, and normalizing
adds none. -/

namespace Packaging.Path

open Text (weight weights)

/-- The weight of the texts of components. -/
def weightOf (cs : List Component) : Nat := weights (cs.map Component.text)

theorem weightOf_append (cs ds : List Component) :
    weightOf (cs ++ ds) = weightOf cs + weightOf ds := by
  rw [weightOf, List.map_append, Text.weights_append, weightOf, weightOf]

theorem weightOf_cons (c : Component) (cs : List Component) :
    weightOf (c :: cs) = weight c.text + weightOf cs := rfl

theorem weightOf_reverse (cs : List Component) : weightOf cs.reverse = weightOf cs := by
  induction cs with
  | nil => rfl
  | cons c cs ih =>
    rw [List.reverse_cons, weightOf_append, ih, weightOf_cons, weightOf_cons]
    exact Nat.add_comm _ _

/-- A segment weighs what the step that it makes does. -/
theorem weightOf_segment {s : Text} (h : '/' ∉ s) :
    weightOf (Component.ofSegment? s).toList = weight s := by
  cases hc : Component.ofSegment? s with
  | none =>
    unfold Component.ofSegment? at hc
    split at hc
    · rename_i hs
      rw [Bool.or_eq_true, decide_eq_true_eq, decide_eq_true_eq] at hs
      rcases hs with rfl | rfl <;> rfl
    · split at hc <;> cases hc
  | some c =>
    have ht := (Component.isStep_of_ofSegment? h hc).2
    rw [Option.toList_some, weightOf_cons, ht]
    rfl

theorem weightOf_filterMap {segs : List Text} (h : ∀ s ∈ segs, '/' ∉ s) :
    weightOf (segs.filterMap Component.ofSegment?) = weights segs := by
  induction segs with
  | nil => rfl
  | cons s segs ih =>
    have hs := weightOf_segment (h s (List.mem_cons_self ..))
    have hr := ih fun t ht => h t (List.mem_cons_of_mem _ ht)
    rw [Text.weights_cons, ← hs, ← hr, ← weightOf_append]
    cases hc : Component.ofSegment? s with
    | none => rw [List.filterMap_cons_none hc]; rfl
    | some c => rw [List.filterMap_cons_some hc]; rfl

theorem weightOf_steps (t : Text) : weightOf (steps t) = weight t := by
  unfold steps
  rw [weightOf_filterMap fun s hs => not_mem_of_mem_segments hs]
  conv => rhs; rw [← intercalate_segments t]
  exact (Text.weight_intercalate rfl _).symm

theorem weightOf_components (p : Path) : weightOf p.components = weight p.text := by
  rw [components_eq, weightOf_append, weightOf_steps, start]
  split
  · exact Nat.zero_add _
  · split <;> exact Nat.zero_add _

theorem weight_of_components {p q : Path} (h : p.components = q.components) :
    weight p.text = weight q.text := by
  rw [← weightOf_components, ← weightOf_components, h]

theorem weights_of_components {ps qs : List Path}
    (h : ps.map components = qs.map components) :
    weights (ps.map text) = weights (qs.map text) := by
  induction ps generalizing qs with
  | nil =>
    cases qs with
    | nil => rfl
    | cons q qs => cases h
  | cons p ps ih =>
    cases qs with
    | nil => cases h
    | cons q qs =>
      obtain ⟨hp, hps⟩ := List.cons.inj h
      rw [List.map_cons, List.map_cons, Text.weights_cons, Text.weights_cons,
        weight_of_components hp, ih hps]

theorem weightOf_push_le (st : List Component) (c : Component) :
    weightOf (push st c) ≤ weight c.text + weightOf st := by
  rw [push.eq_def]
  split
  · exact Nat.le_add_left _ _
  · rw [weightOf_cons]
    omega
  · exact Nat.le_refl _

theorem weightOf_stack_le (p : Path) : weightOf (stack p) ≤ weight p.text := by
  have hfold : ∀ cs st : List Component,
      weightOf (cs.foldl push st) ≤ weightOf cs + weightOf st := by
    intro cs
    induction cs with
    | nil => exact fun st => Nat.le_add_left _ _
    | cons c cs ih =>
      intro st
      have h1 := ih (push st c)
      have h2 := weightOf_push_le st c
      rw [List.foldl_cons, weightOf_cons]
      omega
  have h := hfold p.components []
  rw [weightOf_components] at h
  exact h

theorem weight_normal_le (p : Path) : weight p.normal.text ≤ weight p.text := by
  rw [← weightOf_components, components_normal, weightOf_reverse]
  exact weightOf_stack_le p

theorem weight_join {p q : Path} (h : q.isAbsolute = false) :
    weight (p.join q).text = weight p.text + weight q.text := by
  rcases text_join (p := p) h with ⟨ht, -⟩ | ⟨ht, -⟩
  · rw [ht, Text.weight_append]
  · rw [ht, Text.weight_append, Text.weight_cons_of_not rfl]

end Packaging.Path
