import Packaging.Proofs.Markup.Escape
import Packaging.Proofs.Template.Token
import Packaging.Template.Warnings

/-! Expansion is replacement at all places at once. The text decides where tokens stand, and what
comes out is, place by place, the value of a token that starts there, nothing inside a token, and
the character itself everywhere else. A value is written with entities if the text is escaped and
the value is not markup already. Both sides are shown to obey the same two rules: a token at the
start gives its value, any other character goes over as it is. -/

namespace Packaging.Template

variable (values : Values) (escape : Bool)

/-- What a token is replaced by. Two of the variables have values that are markup already. -/
def replacement (v : Variable) : Text :=
  if escape = true ∧ v ≠ .descriptionMarkup ∧ v ≠ .historyMarkup then
    (values v).flatMap Markup.encoded
  else values v

/-- What a place of the text becomes. -/
def shownAt (t : Text) (i : Nat) : Text :=
  match tokenAt? t i with
  | some v => replacement values escape v
  | none => if inToken t i then [] else t[i]?.toList

/-- The text with every token replaced. -/
def replaced (t : Text) : Text := (List.range t.length).flatMap (shownAt values escape t)

theorem isMarkup_iff {v : Variable} :
    v.isMarkup = true ↔ v = .descriptionMarkup ∨ v = .historyMarkup := by
  cases v <;> simp [Variable.isMarkup]

theorem shown_eq_replacement (v : Variable) :
    values.shown escape v = replacement values escape v := by
  have hescaped : (escape && !v.isMarkup) = true ↔
      escape = true ∧ v ≠ .descriptionMarkup ∧ v ≠ .historyMarkup := by
    rw [Bool.and_eq_true, Bool.not_eq_true', ← Bool.not_eq_true, isMarkup_iff, not_or]
  simp only [Values.shown, replacement, hescaped, Markup.escape_eq_flatMap]

/-! ## Pieces -/

theorem pieces_plain {c : Char} {t : Text} (h : (c = '$' && t.head? == some '\x7b') = false) :
    pieces (c :: t) = .plain c :: pieces t := by
  rw [pieces, if_neg (Bool.eq_false_iff.mp h)]

theorem pieces_open (t : Text) :
    pieces ('$' :: '\x7b' :: t) =
      match body? t with
      | some (name, rest) => .ofName name :: pieces rest
      | none => .unclosed (beforeOpening t) :: pieces t := by
  rw [pieces, if_pos (by simp)]
  simp only [List.tail_cons]
  split <;> rename_i h <;> simp only [h]

/-- Up to its closing brace the body of a token has no other token in it. -/
theorem pieces_of_body? {t name rest : Text} (h : body? t = some (name, rest)) :
    t = name ++ '\x7d' :: rest ∧ pieces t = name.map .plain ++ .plain '\x7d' :: pieces rest := by
  induction t generalizing name with
  | nil => cases h
  | cons c r ih =>
    unfold body? at h
    split at h
    · rename_i hc
      obtain ⟨rfl, rfl⟩ := Prod.mk.inj (Option.some.inj h)
      subst hc
      exact ⟨rfl, pieces_plain rfl⟩
    · split at h
      · cases h
      · rename_i ho
        obtain ⟨⟨name', rest'⟩, hb, he⟩ := Option.map_eq_some_iff.mp h
        obtain ⟨rfl, rfl⟩ := Prod.mk.inj he
        obtain ⟨hr, hp⟩ := ih hb
        refine ⟨by rw [hr]; rfl, ?_⟩
        rw [pieces_plain (Bool.eq_false_iff.mpr ho), hp]
        rfl

theorem body?_name {n : Text} (hd : '$' ∉ n) (hb : '\x7d' ∉ n) (r : Text) :
    body? (n ++ '\x7d' :: r) = some (n, r) := by
  induction n with
  | nil => simp [body?]
  | cons c n ih =>
    rw [List.mem_cons, not_or] at hd hb
    rw [List.cons_append, body?, if_neg fun h => hb.1 h.symm, if_neg, ih hd.2 hb.2]
    · rfl
    · simp [Ne.symm hd.1]

/-! ## The two rules of expansion -/

/-- What the pieces of a text come to. -/
def expanded (t : Text) : Text := (pieces t).flatMap (·.expand values escape)

theorem expanded_nil : expanded values escape [] = [] := by simp [expanded, pieces]

theorem expanded_token (v : Variable) (r : Text) :
    expanded values escape (v.token ++ r) =
      replacement values escape v ++ expanded values escape r := by
  obtain ⟨hd, hb⟩ := v.not_mem_name
  have hn : Variable.ofName? v.name = some v := Variable.ofName?_eq_some_iff.mpr rfl
  rw [v.token_append, expanded, pieces_open, body?_name hd hb, ← shown_eq_replacement]
  simp only [Piece.ofName, hn, List.flatMap_cons]
  rfl

theorem expanded_plain {c : Char} {t : Text} (h : (c = '$' && t.head? == some '\x7b') = false) :
    expanded values escape (c :: t) = c :: expanded values escape t := by
  unfold expanded
  rw [pieces_plain h]
  rfl

theorem expanded_of_body? {t name rest : Text} (h : body? t = some (name, rest)) :
    expanded values escape t = name ++ '\x7d' :: expanded values escape rest := by
  unfold expanded
  rw [(pieces_of_body? h).2, List.flatMap_append, List.flatMap_map]
  simp [Piece.expand]

/-- A character that starts no token goes over, also where it seems to start one. -/
theorem expanded_cons {c : Char} {t : Text} (h : tokenAt? (c :: t) 0 = none) :
    expanded values escape (c :: t) = c :: expanded values escape t := by
  cases ho : (c = '$' && t.head? == some '\x7b' : Bool) with
  | false => exact expanded_plain values escape ho
  | true =>
    obtain ⟨rfl, hh⟩ : c = '$' ∧ t.head? = some '\x7b' := by simpa using ho
    obtain ⟨s, rfl⟩ := List.head?_eq_some_iff.mp hh
    rw [expanded_plain values escape (c := '\x7b') rfl, expanded, pieces_open]
    cases hb : body? s with
    | none => rfl
    | some p =>
      obtain ⟨name, rest⟩ := p
      have hn : Variable.ofName? name = none := by
        refine Option.eq_none_iff_forall_ne_some.mpr fun v hv => ?_
        rw [tokenAt?_eq_none_iff] at h
        apply h v
        rw [(pieces_of_body? hb).1, Variable.ofName?_eq_some_iff.mp hv, List.drop_zero,
          ← v.token_append]
        exact List.prefix_append _ _
      have hu : Piece.ofName name = .unknown name := by rw [Piece.ofName, hn]
      rw [expanded_of_body? _ _ hb]
      show (Piece.ofName name).expand values escape ++ expanded values escape rest = _
      rw [hu, Piece.expand]
      simp only [List.cons_append, List.append_assoc, List.nil_append]

/-! ## The same rules for replacement -/

theorem flatMap_range_add {α : Type} (f : Nat → List α) (m n : Nat) :
    (List.range (m + n)).flatMap f =
      (List.range m).flatMap f ++ (List.range n).flatMap fun i => f (m + i) := by
  rw [List.range_add, List.flatMap_append, List.flatMap_map]

theorem inToken_append_token (v : Variable) (r : Text) (i : Nat) :
    inToken (v.token ++ r) (v.token.length + i) = inToken r i := by
  rw [Bool.eq_iff_iff, inToken_iff, inToken_iff]
  constructor
  · intro h
    obtain ⟨j, w, hj, hw, hi⟩ := h
    by_cases hlt : j < v.token.length
    · cases j with
      | zero =>
        rw [tokenAt?_token, Option.some.injEq] at hw
        subst hw
        omega
      | succ j =>
        rw [tokenAt?_inside v r (Nat.succ_pos j) hlt] at hw
        cases hw
    · obtain ⟨k, rfl⟩ := Nat.exists_eq_add_of_le (Nat.le_of_not_lt hlt)
      rw [tokenAt?_append] at hw
      exact ⟨k, w, by omega, hw, by omega⟩
  · intro hx
    obtain ⟨j, w, hj, hw, hi⟩ := hx
    exact ⟨v.token.length + j, w, by omega, by rw [tokenAt?_append]; exact hw, by omega⟩

theorem inToken_cons {c : Char} {t : Text} (h : tokenAt? (c :: t) 0 = none) (i : Nat) :
    inToken (c :: t) (1 + i) = inToken t i := by
  rw [Bool.eq_iff_iff, inToken_iff, inToken_iff]
  constructor
  · intro hx
    obtain ⟨j, w, hj, hw, hi⟩ := hx
    cases j with
    | zero => rw [h] at hw; cases hw
    | succ j =>
      rw [Nat.add_comm, tokenAt?_cons] at hw
      exact ⟨j, w, by omega, hw, by omega⟩
  · intro hr
    obtain ⟨j, w, hj, hw, hi⟩ := hr
    exact ⟨1 + j, w, by omega, by rw [tokenAt?_cons]; exact hw, by omega⟩

theorem shownAt_inside (v : Variable) (r : Text) {i : Nat} (h : 0 < i)
    (hi : i < v.token.length) : shownAt values escape (v.token ++ r) i = [] := by
  have hin : inToken (v.token ++ r) i = true :=
    inToken_iff.mpr ⟨0, v, h, tokenAt?_token v r, by omega⟩
  unfold shownAt
  rw [tokenAt?_inside v r h hi]
  simp only [hin, if_true]

theorem replaced_token (v : Variable) (r : Text) :
    replaced values escape (v.token ++ r) =
      replacement values escape v ++ replaced values escape r := by
  obtain ⟨n, hn⟩ : ∃ n, v.token.length = 1 + n := ⟨v.token.tail.length, by simp [v.token_eq]; omega⟩
  have hhead : shownAt values escape (v.token ++ r) 0 = replacement values escape v := by
    unfold shownAt
    rw [tokenAt?_token]
  have hbody :
      (List.range n).flatMap (fun i => shownAt values escape (v.token ++ r) (1 + i)) = [] := by
    refine List.flatMap_eq_nil_iff.mpr fun i hi => ?_
    exact shownAt_inside values escape v r (by omega) (by have := List.mem_range.mp hi; omega)
  have hrest : ∀ i, shownAt values escape (v.token ++ r) (v.token.length + i) =
      shownAt values escape r i := by
    intro i
    rw [shownAt, tokenAt?_append, inToken_append_token,
      List.getElem?_append_right (Nat.le_add_right ..), Nat.add_sub_cancel_left, shownAt]
  unfold replaced
  rw [List.length_append, flatMap_range_add]
  simp only [hrest]
  rw [hn, flatMap_range_add, hbody, List.append_nil]
  simp [hhead]

theorem replaced_cons {c : Char} {t : Text} (h : tokenAt? (c :: t) 0 = none) :
    replaced values escape (c :: t) = c :: replaced values escape t := by
  have hin : inToken (c :: t) 0 = false := rfl
  have hhead : shownAt values escape (c :: t) 0 = [c] := by
    unfold shownAt
    rw [h]
    simp [hin]
  have hrest : ∀ i, shownAt values escape (c :: t) (1 + i) = shownAt values escape t i := by
    intro i
    rw [shownAt, tokenAt?_cons, inToken_cons h, shownAt, Nat.add_comm,
      List.getElem?_cons_succ]
  unfold replaced
  rw [List.length_cons, Nat.add_comm, flatMap_range_add]
  simp only [hrest]
  simp [hhead]

/-! ## Every text -/

/-- A text starts with a token, or with a character that starts none. -/
theorem token_induction {P : Text → Prop} (nil : P [])
    (token : ∀ (v : Variable) (r : Text), P r → P (v.token ++ r))
    (plain : ∀ (c : Char) (r : Text), tokenAt? (c :: r) 0 = none → P r → P (c :: r)) (t : Text) :
    P t := by
  induction hk : t.length using Nat.strongRecOn generalizing t with
  | ind k ih =>
    cases t with
    | nil => exact nil
    | cons c r =>
      cases ht : tokenAt? (c :: r) 0 with
      | none => exact plain c r ht (ih _ (by rw [← hk]; exact Nat.lt_succ_self _) r rfl)
      | some v =>
        obtain ⟨s, hs⟩ := tokenAt?_eq_some_iff.mp ht
        rw [List.drop_zero] at hs
        rw [← hs] at hk ⊢
        refine token v s (ih _ ?_ s rfl)
        rw [← hk, List.length_append]
        exact Nat.lt_add_of_pos_left (List.length_pos_iff.mpr v.token_ne_nil)

theorem expanded_eq_replaced (t : Text) :
    expanded values escape t = replaced values escape t := by
  induction t using token_induction with
  | nil => exact expanded_nil values escape
  | token v r ih => rw [expanded_token, replaced_token, ih]
  | plain c r h ih => rw [expanded_cons _ _ h, replaced_cons _ _ h, ih]

/-- A token is replaced wherever it stands, and what stands around it does not see it. -/
theorem expanded_append_token (a : Text) (v : Variable) (b : Text) :
    expanded values escape (a ++ v.token ++ b) =
      expanded values escape a ++ replacement values escape v ++ expanded values escape b := by
  induction a using token_induction with
  | nil => rw [List.nil_append, expanded_token, expanded_nil, List.nil_append]
  | token u r ih =>
    rw [List.append_assoc, List.append_assoc, expanded_token, ← List.append_assoc, ih,
      expanded_token]
    simp only [List.append_assoc]
  | plain c r h ih =>
    have hc : tokenAt? (c :: (r ++ v.token ++ b)) 0 = none := tokenAt?_before h
    rw [List.cons_append, List.cons_append, expanded_cons _ _ hc, ih, expanded_cons _ _ h]
    rfl

/-- Tokens that stand for themselves leave the text as it is. -/
theorem expanded_own_tokens (t : Text) : expanded Variable.token false t = t := by
  induction t using token_induction with
  | nil => exact expanded_nil _ _
  | token v r ih =>
    have hv : replacement Variable.token false v = v.token := if_neg fun h => nomatch h.1
    rw [expanded_token, ih, hv]
  | plain c r h ih => rw [expanded_cons _ _ h, ih]

/-- Expansion is simultaneous replacement: each place of the text becomes what it is by the text
alone, a token gives its value between what the text before and behind it gives, and a table of the
tokens themselves changes nothing. -/
theorem expand_replaces_simultaneously (item : Option Text) (w : Warnings) :
    (∀ values escape t, (expand values escape item t w).1 = replaced values escape t) ∧
    (∀ values escape a v b, (expand values escape item (a ++ Variable.token v ++ b) w).1 =
      (expand values escape item a w).1 ++ replacement values escape v ++
        (expand values escape item b w).1) ∧
    (∀ t, (expand Variable.token false item t w).1 = t) :=
  ⟨expanded_eq_replaced, expanded_append_token, expanded_own_tokens⟩

end Packaging.Template
