import Packaging.Proofs.Text.Items

/-! The weight of a text: how many of its characters reading may take away. Trimming loses weight
unless there was nothing to trim, and cutting at a semicolon loses the semicolon. -/

namespace Packaging.Text

/-- A blank, a quote or a semicolon. -/
def isFragile (c : Char) : Bool := isBlank c || c == '"' || c == '\'' || c == ';'

def weight (t : Text) : Nat := t.countP isFragile

/-- What all texts count for together. -/
def total (count : Text → Nat) : List Text → Nat
  | [] => 0
  | t :: ts => count t + total count ts

theorem total_append (count : Text → Nat) (as bs : List Text) :
    total count (as ++ bs) = total count as + total count bs := by
  induction as with
  | nil => exact (Nat.zero_add _).symm
  | cons a as ih => rw [List.cons_append, total, total, ih, Nat.add_assoc]

def weights (ts : List Text) : Nat := total weight ts

theorem weight_append (a b : Text) : weight (a ++ b) = weight a + weight b := List.countP_append

theorem weight_cons_of_not {c : Char} (h : isFragile c = false) (t : Text) :
    weight (c :: t) = weight t := List.countP_cons_of_neg (Bool.eq_false_iff.mp h)

theorem weight_cons_of {c : Char} (h : isFragile c = true) (t : Text) :
    weight (c :: t) = weight t + 1 := List.countP_cons_of_pos h

theorem weights_cons (t : Text) (ts : List Text) : weights (t :: ts) = weight t + weights ts := rfl

theorem weights_append (as bs : List Text) : weights (as ++ bs) = weights as + weights bs :=
  total_append weight as bs

theorem weight_blank {t : Text} (h : AllBlank t) : weight t = t.length := by
  unfold weight
  rw [List.countP_eq_length]
  intro c hc
  unfold isFragile
  rw [h c hc]
  rfl

theorem weight_trim_le (t : Text) : weight (trim t) ≤ weight t := by
  obtain ⟨a, b, -, -, he⟩ := exists_trim t
  conv => rhs; rw [he, weight_append, weight_append]
  omega

theorem weight_trim_lt {t : Text} (h : ¬Trimmed t) : weight (trim t) < weight t := by
  obtain ⟨a, b, ha, hb, he⟩ := exists_trim t
  have hpos : 0 < a.length + b.length := by
    refine Nat.pos_of_ne_zero fun h0 => h ?_
    have ha0 : a = [] := List.eq_nil_of_length_eq_zero (by omega)
    have hb0 : b = [] := List.eq_nil_of_length_eq_zero (by omega)
    rw [ha0, hb0, List.nil_append, List.append_nil] at he
    exact trimmed_iff.mpr he.symm
  conv => rhs; rw [he, weight_append, weight_append, weight_blank ha, weight_blank hb]
  omega

theorem weights_le_intercalate (sep : Text) (ss : List Text) :
    weights ss ≤ weight (sep.intercalate ss) := by
  induction ss with
  | nil => exact Nat.zero_le _
  | cons s ss ih =>
    by_cases hne : ss = []
    · rw [hne, List.intercalate_singleton]
      exact Nat.le_refl _
    · rw [List.intercalate_cons_of_ne_nil hne, weights_cons, weight_append, weight_append]
      omega

theorem weight_intercalate {sep : Text} (hs : weight sep = 0) (ss : List Text) :
    weight (sep.intercalate ss) = weights ss := by
  induction ss with
  | nil => rfl
  | cons s ss ih =>
    by_cases hne : ss = []
    · rw [hne, List.intercalate_singleton]
      rfl
    · rw [List.intercalate_cons_of_ne_nil hne, weights_cons, weight_append, weight_append, ih, hs,
        Nat.add_zero]

theorem weights_kept_le (t : Text) : weights (kept t) ≤ weight t := by
  unfold kept
  split
  · exact Nat.zero_le _
  · exact weight_trim_le t

theorem weights_itemsAt_le (sep : Char) (t : Text) : weights (itemsAt sep t) ≤ weight t := by
  have hw : weights (cutAt (· == sep) t) ≤ weight t := by
    conv => rhs; rw [← intercalate_cutAt sep t]
    exact weights_le_intercalate _ _
  rw [itemsAt_eq_flatMap]
  refine Nat.le_trans ?_ hw
  induction cutAt (· == sep) t with
  | nil => exact Nat.le_refl _
  | cons w ws ih =>
    rw [List.flatMap_cons, weights_append, weights_cons]
    exact Nat.add_le_add (weights_kept_le w) ih

end Packaging.Text
