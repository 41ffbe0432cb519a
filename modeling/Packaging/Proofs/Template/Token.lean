import Mathlib.Data.List.Nodup
import Packaging.Template.Piece
import Packaging.Proofs.Text.Cut

/-! Where the tokens of variables stand in a text. Only the first character of a token is a dollar
sign and only the last a closing brace, so tokens never overlap and at most one starts at a
place. -/

namespace Packaging.Template

namespace Variable

/-- No character of a name has a meaning in a template. -/
theorem name_plain (v : Variable) :
    v.name.all (fun c => c != '$' && c != '\x7b' && c != '\x7d') = true := by
  cases v <;> decide

theorem not_mem_name (v : Variable) : '$' ∉ v.name ∧ '\x7d' ∉ v.name := by
  have h := List.all_eq_true.mp v.name_plain
  refine ⟨fun hm => ?_, fun hm => ?_⟩
  · simpa using h _ hm
  · simpa using h _ hm

theorem nodup_names : (all.map name).Nodup := by decide

theorem name_injective {v w : Variable} (h : v.name = w.name) : v = w :=
  List.inj_on_of_nodup_map nodup_names (mem_all v) (mem_all w) h

theorem ofName?_eq_some_iff {n : Text} {v : Variable} : ofName? n = some v ↔ n = v.name := by
  constructor
  · intro h
    exact (beq_iff_eq.mp (List.find?_some (p := fun v : Variable => v.name == n) h)).symm
  · intro he
    subst he
    cases hf : ofName? v.name with
    | none =>
      have := List.find?_eq_none.mp hf v (mem_all v)
      simp at this
    | some w =>
      have := beq_iff_eq.mp (List.find?_some (p := fun w : Variable => w.name == v.name) hf)
      rw [name_injective this]

theorem token_eq (v : Variable) : v.token = '$' :: '\x7b' :: (v.name ++ ['\x7d']) := rfl

theorem token_append (v : Variable) (r : Text) :
    v.token ++ r = '$' :: '\x7b' :: (v.name ++ '\x7d' :: r) := by
  simp [token_eq]

theorem token_ne_nil (v : Variable) : v.token ≠ [] := nofun

/-- Behind its first character a token has no dollar sign. -/
theorem dollar_not_mem_tail (v : Variable) : '$' ∉ v.token.tail := by
  have := v.not_mem_name.1
  simp [token_eq, this]

theorem token_prefix_unique {v w : Variable} {t : Text} (hv : v.token <+: t) (hw : w.token <+: t) :
    v = w := by
  obtain ⟨r, rfl⟩ := hv
  obtain ⟨s, hs⟩ := hw
  rw [token_append, token_append] at hs
  have hs := (List.cons.inj (List.cons.inj hs).2).2
  have h := Text.splitFirst?_eq_some_iff.mpr ⟨hs.symm, w.not_mem_name.2⟩
  rw [Text.splitFirst?_eq_some_iff.mpr ⟨rfl, v.not_mem_name.2⟩] at h
  exact name_injective (Prod.mk.inj (Option.some.inj h)).1

end Variable

/-! ## Places -/

/-- The token of the variable starts at the place of the text. -/
def startsAt (t : Text) (i : Nat) (v : Variable) : Bool := v.token.isPrefixOf (t.drop i)

/-- The variable whose token starts at a place of the text. -/
def tokenAt? (t : Text) (i : Nat) : Option Variable := Variable.all.find? (startsAt t i)

/-- The place belongs to a token that starts before it. -/
def inToken (t : Text) (i : Nat) : Bool :=
  (List.range i).any fun j => (tokenAt? t j).any fun v => i < j + v.token.length

theorem tokenAt?_eq_some_iff {t : Text} {i : Nat} {v : Variable} :
    tokenAt? t i = some v ↔ v.token <+: t.drop i := by
  constructor
  · intro h
    exact List.isPrefixOf_iff_prefix.mp (List.find?_some (p := startsAt t i) h)
  · intro h
    cases hf : tokenAt? t i with
    | none =>
      have := List.find?_eq_none.mp hf v (Variable.mem_all v)
      exact absurd (List.isPrefixOf_iff_prefix.mpr h) this
    | some w =>
      have hw := List.isPrefixOf_iff_prefix.mp (List.find?_some (p := startsAt t i) hf)
      rw [Variable.token_prefix_unique h hw]

theorem tokenAt?_eq_none_iff {t : Text} {i : Nat} :
    tokenAt? t i = none ↔ ∀ v : Variable, ¬v.token <+: t.drop i := by
  constructor
  · intro h v hv
    rw [tokenAt?_eq_some_iff.mpr hv] at h
    cases h
  · intro h
    cases hf : tokenAt? t i with
    | none => rfl
    | some v => exact absurd (tokenAt?_eq_some_iff.mp hf) (h v)

theorem inToken_iff {t : Text} {i : Nat} :
    inToken t i = true ↔ ∃ j v, j < i ∧ tokenAt? t j = some v ∧ i < j + v.token.length := by
  simp only [inToken, List.any_eq_true, List.mem_range, Option.any_eq_true, decide_eq_true_eq]
  exact ⟨fun ⟨j, hj, v, hv, hi⟩ => ⟨j, v, hj, hv, hi⟩, fun ⟨j, v, hj, hv, hi⟩ => ⟨j, hj, v, hv, hi⟩⟩

theorem tokenAt?_append (a b : Text) (i : Nat) :
    tokenAt? (a ++ b) (a.length + i) = tokenAt? b i := by
  have h : startsAt (a ++ b) (a.length + i) = startsAt b i := by
    funext v
    rw [startsAt, List.drop_length_add_append, startsAt]
  rw [tokenAt?, h, tokenAt?]

theorem tokenAt?_cons (c : Char) (t : Text) (i : Nat) : tokenAt? (c :: t) (1 + i) = tokenAt? t i :=
  tokenAt?_append [c] t i

theorem tokenAt?_token (v : Variable) (r : Text) : tokenAt? (v.token ++ r) 0 = some v :=
  tokenAt?_eq_some_iff.mpr (List.prefix_append v.token r)

/-- A token starts with a dollar sign. -/
theorem dollar_of_tokenAt? {t : Text} {i : Nat} {v : Variable} (h : tokenAt? t i = some v) :
    t[i]? = some '$' := by
  obtain ⟨r, hr⟩ := tokenAt?_eq_some_iff.mp h
  rw [← List.head?_drop, ← hr]
  rfl

/-- No token starts inside another one. -/
theorem tokenAt?_inside (v : Variable) (r : Text) {i : Nat} (h : 0 < i)
    (hi : i < v.token.length) : tokenAt? (v.token ++ r) i = none := by
  cases hf : tokenAt? (v.token ++ r) i with
  | none => rfl
  | some w =>
    have hd := dollar_of_tokenAt? hf
    rw [List.getElem?_append_left hi] at hd
    obtain ⟨j, rfl⟩ := Nat.exists_eq_add_of_lt h
    rw [Nat.zero_add, ← List.getElem?_tail] at hd
    exact absurd (List.mem_of_getElem? hd) v.dollar_not_mem_tail

/-- A token that starts before a token ends before it. -/
theorem tokenAt?_before {c : Char} {a b : Text} {v : Variable}
    (h : tokenAt? (c :: a) 0 = none) : tokenAt? (c :: a ++ v.token ++ b) 0 = none := by
  rw [tokenAt?_eq_none_iff] at h ⊢
  intro w hw
  rw [List.append_assoc, List.drop_zero] at hw
  rcases List.prefix_or_prefix_of_prefix hw (List.prefix_append (c :: a) _) with hp | ⟨s, hs⟩
  · exact h w hp
  · have hne : s ≠ [] := by
      intro he
      subst he
      exact h w ⟨[], by rw [List.append_nil, ← hs, List.append_nil]; rfl⟩
    obtain ⟨d, s', rfl⟩ := List.exists_cons_of_ne_nil hne
    rw [← hs, List.prefix_append_right_inj, Variable.token_append] at hw
    obtain ⟨rfl, -⟩ := List.cons_prefix_cons.mp hw
    exact w.dollar_not_mem_tail (by rw [← hs]; simp)

end Packaging.Template
