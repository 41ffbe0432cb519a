import Packaging.Proofs.Descriptor.PathValues
import Packaging.Proofs.Path.Weight

/-! What a path costs when it is read: its weight, and that of the base if it is found from there.
Reading takes fragile characters away where it does not find a text as it was written, and the path
it finds then costs less than the one that was written. -/

namespace Packaging

open Kind (resolve)
open Packaging.Path (seenFrom)
open Text (Trimmed AllBlank weight weights kept itemsAt)

/-- The most that the path of a text can weigh, with the weight of the base. -/
def cost (b : Nat) (t : Text) : Nat := (if Path.isAbsolute ⟨t⟩ then 0 else b) + weight t

theorem cost_absolute {b : Nat} {t : Text} (h : Path.isAbsolute ⟨t⟩ = true) :
    cost b t = weight t := by
  unfold cost
  rw [if_pos h, Nat.zero_add]

theorem cost_relative {b : Nat} {t : Text} (h : Path.isAbsolute ⟨t⟩ = false) :
    cost b t = b + weight t := by
  unfold cost
  rw [if_neg (Bool.eq_false_iff.mp h)]

theorem cost_le (b : Nat) (t : Text) : cost b t ≤ b + weight t := by
  unfold cost
  split <;> omega

theorem weight_resolve_le (base : Path) (t : Text) :
    weight (resolve base t).text ≤ cost (weight base.text) t := by
  cases ha : Path.isAbsolute ⟨t⟩ with
  | true => rw [Path.resolve_absolute ha, cost_absolute ha]
  | false =>
    rw [Path.resolve_relative ha, cost_relative ha, ← Path.weight_join (p := base) (q := ⟨t⟩) ha]
    exact Path.weight_normal_le _

/-- An absolute path weighs what it costs from what is seen of it. -/
theorem weight_seenFrom {base p : Path} (hb : base.components ≠ []) (hp : p.isAbsolute = true) :
    weight p.text = cost (weight base.text) (seenFrom base p) := by
  by_cases hbelow : base.components <+: p.components
  · obtain ⟨-, ha, hc⟩ := Path.seenFrom_below hb hbelow
    rw [cost_relative ha, ← Path.weightOf_components, hc, Path.weightOf_append,
      Path.weightOf_components, Path.weightOf_steps]
  · rw [Path.seenFrom_outside hb hbelow, cost_absolute hp]

/-! ## One text -/

theorem isAbsolute_trim {t : Text} (h : Path.isAbsolute ⟨t⟩ = true) :
    Path.isAbsolute ⟨Text.trim t⟩ = true := by
  obtain ⟨r, rfl⟩ : ∃ r, t = '/' :: r := List.head?_eq_some_iff.mp (Path.isAbsolute_iff.mp h)
  obtain ⟨u, hu⟩ := Text.head_prefix_trim Text.isBlank_slash r
  rw [← hu]
  rfl

theorem cost_trim_le (b : Nat) (t : Text) : cost b (Text.trim t) ≤ cost b t := by
  have hw := Text.weight_trim_le t
  cases ha : Path.isAbsolute ⟨t⟩ with
  | true => rwa [cost_absolute ha, cost_absolute (isAbsolute_trim ha)]
  | false =>
    rw [cost_relative ha]
    exact Nat.le_trans (cost_le _ _) (Nat.add_le_add_left hw b)

theorem cost_trim_lt (b : Nat) {t : Text} (h : ¬Trimmed t) : cost b (Text.trim t) < cost b t := by
  have hw := Text.weight_trim_lt h
  cases ha : Path.isAbsolute ⟨t⟩ with
  | true => rwa [cost_absolute ha, cost_absolute (isAbsolute_trim ha)]
  | false =>
    rw [cost_relative ha]
    exact Nat.lt_of_le_of_lt (cost_le _ _) (Nat.add_lt_add_left hw b)

theorem weight_unquoted_le (v : Text) : weight (Document.unquoted v) ≤ weight v := by
  have h : Document.Unquotes v (Document.unquoted v) := Document.unquotes_iff.mpr rfl
  generalize Document.unquoted v = w at h
  cases h with
  | pair hq =>
    rw [List.cons_append, ← List.singleton_append, Text.weight_append, Text.weight_append]
    omega
  | bare _ => exact Nat.le_refl _

theorem unquoted_absolute {v : Text} (h : Path.isAbsolute ⟨v⟩ = true) :
    Document.unquoted v = v := by
  obtain ⟨r, rfl⟩ : ∃ r, v = '/' :: r := List.head?_eq_some_iff.mp (Path.isAbsolute_iff.mp h)
  refine Document.unquotes_iff.mp (.bare ?_)
  intro q w hq he
  obtain ⟨rfl, -⟩ := List.cons.inj he
  rcases hq with hq | hq <;> cases hq

theorem cost_unquoted_le (b : Nat) (v : Text) : cost b (Document.unquoted v) ≤ cost b v := by
  have hw := weight_unquoted_le v
  cases ha : Path.isAbsolute ⟨v⟩ with
  | true => rw [unquoted_absolute ha]
  | false =>
    rw [cost_relative ha]
    exact Nat.le_trans (cost_le _ _) (Nat.add_le_add_left hw b)

theorem value_line_of_not_trimmed {t : Text} (h : ¬Trimmed t) :
    (Written.line t).value = Document.unquoted (Text.trim t) := by
  show Document.unquoted (Text.trim (Written.quoted t)) = _
  rw [Written.quoted_of_not_trimmed h]

/-- A text that has to be trimmed is found as a cheaper one. -/
theorem cost_found_lt (b : Nat) {t : Text} (h : ¬Trimmed t) :
    cost b (Text.trim (Written.line t).value) < cost b t := by
  rw [value_line_of_not_trimmed h]
  refine Nat.lt_of_le_of_lt (cost_trim_le b _) ?_
  exact Nat.lt_of_le_of_lt (cost_unquoted_le b _) (cost_trim_lt b h)

theorem mem_unquoted {v : Text} {c : Char} (hq : ¬Document.IsQuote c) (h : c ∈ v) :
    c ∈ Document.unquoted v := by
  have hu : Document.Unquotes v (Document.unquoted v) := Document.unquotes_iff.mpr rfl
  generalize Document.unquoted v = w at hu
  cases hu with
  | pair hp =>
    rw [List.cons_append, List.mem_cons, List.mem_append, List.mem_singleton] at h
    rcases h with rfl | h | rfl
    · exact absurd hp hq
    · exact h
    · exact absurd hp hq
  | bare _ => exact h

theorem mem_of_mem_unquoted {v : Text} {c : Char} (h : c ∈ Document.unquoted v) : c ∈ v := by
  have hu : Document.Unquotes v (Document.unquoted v) := Document.unquotes_iff.mpr rfl
  generalize Document.unquoted v = w at h hu
  cases hu with
  | pair _ => simp [h]
  | bare _ => exact h

/-- Reading takes nothing but blanks and quotes from a text. -/
theorem mem_value_line {t : Text} {c : Char} (hb : Text.isBlank c = false)
    (hq : ¬Document.IsQuote c) (h : c ∈ t) : c ∈ (Written.line t).value := by
  by_cases ht : Trimmed t
  · rwa [Written.value_line_of_trimmed ht]
  · rw [value_line_of_not_trimmed ht]
    exact mem_unquoted hq (Text.mem_trim hb h)

theorem mem_of_mem_value_line {t : Text} {c : Char} (h : c ∈ (Written.line t).value) : c ∈ t := by
  by_cases ht : Trimmed t
  · rwa [Written.value_line_of_trimmed ht] at h
  · rw [value_line_of_not_trimmed ht] at h
    exact Text.mem_of_mem_trim (mem_of_mem_unquoted h)

/-! ## One path -/

/-- What is found where a safe text was written is a safe text again. -/
theorem isLine_of_found? {t r : Text} (h : Hazardless t) (hr : (Written.line t).found? = some r) :
    IsLine .safe r ∧ r = Text.trim (Written.line t).value := by
  unfold Written.found? at hr
  rw [Option.filter_some] at hr
  split at hr
  · rename_i hne
    obtain rfl := Option.some.inj hr
    refine ⟨.of_hazardless ?_ (Text.trimmed_trim _) (by simpa using hne), rfl⟩
    exact fun c hc => h c (mem_of_mem_value_line (Text.mem_of_mem_trim hc))
  · cases hr

/-- A path that agrees with what is found for it returns. -/
theorem returns_of_found {base p : Path} {r : Text} (hb : base.components ≠ [])
    (hp : p.isAbsolute = true) (hr : (Written.line (seenFrom base p)).found? = some r)
    (hs : Hazardless (seenFrom base p)) (ha : p.components = (resolve base r).components) :
    r = seenFrom base p ∧ Path.Returns base p := by
  obtain ⟨hl, he⟩ := isLine_of_found? hs hr
  have hw := weight_resolve_le base r
  rw [← Path.weight_of_components ha, weight_seenFrom hb hp, he] at hw
  have ht : Trimmed (seenFrom base p) := Classical.byContradiction fun hn =>
    absurd (cost_found_lt (weight base.text) hn) (Nat.not_lt.mpr hw)
  have hrs : r = seenFrom base p := by
    rw [he, Written.value_line_of_trimmed ht, ht.trim_eq]
  refine ⟨hrs, ht, ?_, ?_⟩
  · rw [← hrs]
    exact hl.ne_nil
  · rw [← hrs]
    exact ha.symm

/-! ## Lists of texts -/

def costs (b : Nat) (ts : List Text) : Nat := Text.total (cost b) ts

theorem costs_cons (b : Nat) (t : Text) (ts : List Text) :
    costs b (t :: ts) = cost b t + costs b ts := rfl

theorem costs_append (b : Nat) (as bs : List Text) :
    costs b (as ++ bs) = costs b as + costs b bs := Text.total_append (cost b) as bs

theorem costs_le (b : Nat) (ts : List Text) : costs b ts ≤ ts.length * b + weights ts := by
  induction ts with
  | nil => exact Nat.zero_le _
  | cons t ts ih =>
    have ht := cost_le b t
    rw [costs_cons, Text.weights_cons, List.length_cons, Nat.add_mul, Nat.one_mul]
    omega

theorem costs_itemsAt_le (b : Nat) (sep : Char) (t : Text) :
    costs b (itemsAt sep t) ≤ (itemsAt sep t).length * b + weight t :=
  Nat.le_trans (costs_le b _) (Nat.add_le_add_left (Text.weights_itemsAt_le sep t) _)

/-- Cutting at a semicolon finds less than the text costs, even if each piece but the first is found
from the base. -/
theorem costs_cut_lt (b : Nat) {t : Text} (h : ';' ∈ t) :
    costs b (itemsAt ';' t) + b < (itemsAt ';' t).length * b + cost b t := by
  obtain ⟨x, y, rfl, hx⟩ := List.eq_append_cons_of_mem h
  have hy := costs_itemsAt_le b ';' y
  have hw : weight (x ++ ';' :: y) = weight x + (weight y + 1) := by
    rw [Text.weight_append, Text.weight_cons_of rfl]
  rw [Text.itemsAt_append, costs_append, List.length_append, Nat.add_mul]
  cases ha : Path.isAbsolute ⟨x ++ ';' :: y⟩ with
  | true =>
    have hxa : Path.isAbsolute ⟨x⟩ = true := by
      cases x with
      | nil => cases ha
      | cons c x => exact ha
    have htrim := isAbsolute_trim hxa
    have hne : Text.trim x ≠ [] := by
      intro he
      rw [he] at htrim
      cases htrim
    have hk : kept x = [Text.trim x] := by
      unfold kept
      rw [if_neg hne]
    have hwx := Text.weight_trim_le x
    rw [cost_absolute ha, hw, Text.itemsAt_of_not_mem hx, hk, costs_cons, cost_absolute htrim,
      List.length_singleton, Nat.one_mul, show costs b [] = 0 from rfl]
    omega
  | false =>
    have hxl := costs_itemsAt_le b ';' x
    rw [cost_relative ha, hw]
    omega

theorem le_cost_blank (b : Nat) {t : Text} (h : AllBlank t) : b ≤ cost b t := by
  have ha : Path.isAbsolute ⟨t⟩ = false := by
    rw [Bool.eq_false_iff, ne_eq, Path.isAbsolute_iff]
    intro hh
    cases h '/' (List.mem_of_mem_head? hh)
  rw [cost_relative ha]
  exact Nat.le_add_right _ _

theorem le_costs_blank (b : Nat) {ts : List Text} (h : ts.flatMap kept = []) :
    ts.length * b ≤ costs b ts := by
  rw [List.flatMap_eq_nil_iff] at h
  induction ts with
  | nil => rw [List.length_nil, Nat.zero_mul]; exact Nat.zero_le _
  | cons t ts ih =>
    have ht := le_cost_blank b (Text.kept_eq_nil_iff.mp (h t (List.mem_cons_self ..)))
    have hr := ih fun s hs => h s (List.mem_cons_of_mem _ hs)
    rw [costs_cons, List.length_cons, Nat.add_mul, Nat.one_mul]
    omega

/-- Texts only one of which is not blank cost as much as that one and the base for each other. -/
theorem le_costs_single (b : Nat) {ts : List Text} {v : Text} (h : ts.flatMap kept = [v]) :
    ts.length * b + cost b v ≤ costs b ts + b := by
  induction ts with
  | nil => cases h
  | cons t ts ih =>
    rw [List.flatMap_cons] at h
    rw [costs_cons, List.length_cons, Nat.add_mul, Nat.one_mul]
    by_cases hk : kept t = []
    · rw [hk, List.nil_append] at h
      have ht := le_cost_blank b (Text.kept_eq_nil_iff.mp hk)
      have hr := ih h
      omega
    · have hkt : kept t = [Text.trim t] := by
        rw [kept] at hk ⊢
        split at hk
        · exact absurd rfl hk
        · rename_i hne
          rw [if_neg hne]
      rw [hkt, List.singleton_append] at h
      obtain ⟨rfl, hnil⟩ := List.cons.inj h
      have hr := le_costs_blank b hnil
      have ht := cost_trim_le b t
      omega

theorem kept_length_le (ts : List Text) : (ts.flatMap kept).length ≤ ts.length := by
  induction ts with
  | nil => exact Nat.le_refl _
  | cons t ts ih =>
    have ht := Written.length_kept_le t
    rw [List.flatMap_cons, List.length_append, List.length_cons]
    omega

/-- If as many items are found as texts were written, each text was found trimmed. -/
theorem flatMap_kept_of_length {ts : List Text} (h : (ts.flatMap kept).length = ts.length) :
    ts.flatMap kept = ts.map Text.trim ∧ ∀ t ∈ ts, Text.trim t ≠ [] := by
  induction ts with
  | nil => exact ⟨rfl, nofun⟩
  | cons t ts ih =>
    have hr := kept_length_le ts
    rw [List.flatMap_cons, List.length_append, List.length_cons] at h
    by_cases hne : Text.trim t = []
    · rw [kept, if_pos hne, List.length_nil] at h
      omega
    · rw [kept, if_neg hne, List.length_singleton] at h
      obtain ⟨he, hall⟩ := ih (by omega)
      refine ⟨by rw [List.flatMap_cons, kept, if_neg hne, he]; rfl, ?_⟩
      intro s hs
      rcases List.mem_cons.mp hs with rfl | hs
      · exact hne
      · exact hall s hs

theorem costs_trim_le (b : Nat) (ts : List Text) : costs b (ts.map Text.trim) ≤ costs b ts := by
  induction ts with
  | nil => exact Nat.le_refl _
  | cons t ts ih => exact Nat.add_le_add (cost_trim_le b t) ih

/-- Texts that cost no more than they do trimmed are trimmed. -/
theorem trimmed_of_costs {b : Nat} {ts : List Text} (h : costs b ts ≤ costs b (ts.map Text.trim)) :
    ∀ t ∈ ts, Trimmed t := by
  induction ts with
  | nil => nofun
  | cons t ts ih =>
    have hr := costs_trim_le b ts
    have ht := cost_trim_le b t
    rw [List.map_cons, costs_cons, costs_cons] at h
    intro s hs
    rcases List.mem_cons.mp hs with rfl | hs
    · refine Classical.byContradiction fun hn => ?_
      have := cost_trim_lt b hn
      omega
    · exact ih (by omega) s hs

end Packaging
