import Packaging.Proofs.Template.Replacement

/-! The tokens that are warned of, by their places in the text. A place is suspect if a token opens
there that is not one of a variable; the pieces of a template have just these, in their order. -/

namespace Packaging.Template

/-- What every token starts with. -/
def opening : Text := ['$', '\x7b']

/-- The text up to the next opening of a token, all of it if there is none. -/
def upToOpening (t : Text) : Text := (Text.before? opening t).getD t

/-- How a token is shown that opens in front of `t`: whole if it is closed before the next one
opens, else with at most 16 characters of what follows up to there. -/
def shownToken (t : Text) : Text :=
  match Text.before? ['\x7d'] (upToOpening t) with
  | some name => opening ++ name ++ ['\x7d']
  | none => opening ++ (upToOpening t).take 16

/-- The token that opens at the place, if it is not one of a variable. -/
def suspectAt? (t : Text) (i : Nat) : Option Text :=
  if opening.isPrefixOf (t.drop i) && (tokenAt? t i).isNone then some (shownToken (t.drop (i + 2)))
  else none

/-- The suspect tokens of the text, from the first place to the last. -/
def suspects (t : Text) : List Text := (List.range t.length).filterMap (suspectAt? t)

/-! ## Places -/

theorem suspectAt?_cons (c : Char) (t : Text) (i : Nat) :
    suspectAt? (c :: t) (i + 1) = suspectAt? t i := by
  have h : tokenAt? (c :: t) (i + 1) = tokenAt? t i := by rw [Nat.add_comm, tokenAt?_cons]
  simp only [suspectAt?, h, List.drop_succ_cons]

theorem suspects_cons (c : Char) (t : Text) :
    suspects (c :: t) = (suspectAt? (c :: t) 0).toList ++ suspects t := by
  have hrest : (List.range t.length).filterMap (suspectAt? (c :: t) ∘ Nat.succ) = suspects t :=
    List.filterMap_congr fun i _ => suspectAt?_cons c t i
  unfold suspects at hrest ⊢
  rw [List.length_cons, List.range_succ_eq_map, List.filterMap_cons, List.filterMap_map, hrest]
  cases suspectAt? (c :: t) 0 <;> rfl

theorem isPrefixOf_opening (c : Char) (t : Text) :
    opening.isPrefixOf (c :: t) = (c = '$' && t.head? == some '\x7b' : Bool) := by
  have ht : ['\x7b'] <+: t ↔ t.head? = some '\x7b' := by
    cases t <;> simp [eq_comm (a := '\x7b')]
  rw [Bool.eq_iff_iff, List.isPrefixOf_iff_prefix, opening, List.cons_prefix_cons, ht,
    eq_comm (a := '$')]
  simp

theorem suspectAt?_of_plain {c : Char} {t : Text}
    (h : (c = '$' && t.head? == some '\x7b') = false) : suspectAt? (c :: t) 0 = none := by
  simp [suspectAt?, isPrefixOf_opening, h]

theorem suspectAt?_of_opening (t : Text) :
    suspectAt? (opening ++ t) 0 =
      if (tokenAt? (opening ++ t) 0).isNone then some (shownToken t) else none := by
  simp [suspectAt?, opening]

/-! ## What follows an opening -/

theorem beforeOpening_eq (t : Text) : beforeOpening t = upToOpening t := by
  unfold upToOpening
  induction t with
  | nil => rfl
  | cons c t ih =>
    rw [beforeOpening, Text.before?, isPrefixOf_opening, ih]
    split
    · rfl
    · cases Text.before? opening t <;> rfl

/-- The body of a token ends at the first brace before the next opening. -/
theorem body?_eq_before? (t : Text) :
    (body? t).map Prod.fst = Text.before? ['\x7d'] (beforeOpening t) := by
  induction t with
  | nil => rfl
  | cons c t ih =>
    unfold body? beforeOpening
    by_cases hc : c = '\x7d'
    · subst hc
      simp [Text.before?]
    · rw [if_neg hc]
      split
      · rfl
      · rw [Option.map_map, Text.before?, if_neg (by simpa using fun h => hc h.symm), ← ih,
          Option.map_map]
        rfl

theorem shownToken_of_body? {t name rest : Text} (h : body? t = some (name, rest)) :
    shownToken t = opening ++ name ++ ['\x7d'] := by
  have hb := body?_eq_before? t
  rw [h, beforeOpening_eq] at hb
  simp [shownToken, ← hb]

theorem shownToken_of_open {t : Text} (h : body? t = none) :
    shownToken t = opening ++ (beforeOpening t).take 16 := by
  have hb := body?_eq_before? t
  rw [h, beforeOpening_eq] at hb
  simp [shownToken, ← hb, beforeOpening_eq]

theorem body?_of_token {v : Variable} {t : Text} (h : v.token <+: (opening ++ t).drop 0) :
    ∃ r, body? t = some (v.name, r) := by
  obtain ⟨r, hr⟩ := h
  rw [v.token_append] at hr
  have ht : v.name ++ '\x7d' :: r = t := (List.cons.inj (List.cons.inj hr).2).2
  exact ⟨r, ht ▸ body?_name v.not_mem_name.1 v.not_mem_name.2 r⟩

theorem tokenAt?_of_body? {t name rest : Text} (h : body? t = some (name, rest)) :
    tokenAt? (opening ++ t) 0 = Variable.ofName? name := by
  have ht := (pieces_of_body? h).1
  cases hn : Variable.ofName? name with
  | some v =>
    rw [ht, Variable.ofName?_eq_some_iff.mp hn]
    exact (congrArg (tokenAt? · 0) (v.token_append rest).symm).trans (tokenAt?_token v rest)
  | none =>
    rw [tokenAt?_eq_none_iff]
    intro v hv
    obtain ⟨r, hr⟩ := body?_of_token hv
    rw [h] at hr
    rw [Variable.ofName?_eq_some_iff.mpr (Prod.mk.inj (Option.some.inj hr)).1] at hn
    cases hn

theorem tokenAt?_of_open {t : Text} (h : body? t = none) : tokenAt? (opening ++ t) 0 = none := by
  rw [tokenAt?_eq_none_iff]
  intro v hv
  obtain ⟨r, hr⟩ := body?_of_token hv
  rw [h] at hr
  cases hr

/-! ## Pieces -/

/-- The suspect tokens that the pieces of a text are. -/
def pieceSuspects (t : Text) : List Text := (pieces t).filterMap Piece.suspect?

theorem pieceSuspects_nil : pieceSuspects [] = [] := by simp [pieceSuspects, pieces]

theorem pieceSuspects_plain {c : Char} {t : Text}
    (h : (c = '$' && t.head? == some '\x7b') = false) :
    pieceSuspects (c :: t) = pieceSuspects t := by
  simp [pieceSuspects, pieces_plain h, List.filterMap_cons, Piece.suspect?]

theorem pieceSuspects_of_body? {t name rest : Text} (h : body? t = some (name, rest)) :
    pieceSuspects t = pieceSuspects rest := by
  have hname : (name.map Piece.plain).filterMap Piece.suspect? = [] := by
    simp [List.filterMap_eq_nil_iff, Piece.suspect?]
  unfold pieceSuspects
  rw [(pieces_of_body? h).2, List.filterMap_append, hname]
  simp [List.filterMap_cons, Piece.suspect?]

/-- Behind an opening the pieces of the text go on as if it were not there. -/
theorem pieceSuspects_opening (t : Text) :
    pieceSuspects (opening ++ t) = (suspectAt? (opening ++ t) 0).toList ++ pieceSuspects t := by
  show (pieces ('$' :: '\x7b' :: t)).filterMap Piece.suspect? = _
  rw [suspectAt?_of_opening, pieces_open]
  cases hb : body? t with
  | none =>
    rw [tokenAt?_of_open hb, shownToken_of_open hb]
    simp [Piece.suspect?, Piece.shownTail, opening, pieceSuspects]
  | some p =>
    obtain ⟨name, rest⟩ := p
    rw [tokenAt?_of_body? hb, shownToken_of_body? hb, pieceSuspects_of_body? hb]
    cases hn : Variable.ofName? name with
    | none => simp [Piece.ofName, hn, Piece.suspect?, opening, pieceSuspects]
    | some v => simp [Piece.ofName, hn, List.filterMap_cons, Piece.suspect?, pieceSuspects]

theorem pieceSuspects_cons (c : Char) (t : Text) :
    pieceSuspects (c :: t) = (suspectAt? (c :: t) 0).toList ++ pieceSuspects t := by
  cases ho : (c = '$' && t.head? == some '\x7b' : Bool) with
  | false =>
    rw [pieceSuspects_plain ho, suspectAt?_of_plain ho]
    rfl
  | true =>
    obtain ⟨rfl, hh⟩ : c = '$' ∧ t.head? = some '\x7b' := by simpa using ho
    obtain ⟨s, rfl⟩ := List.head?_eq_some_iff.mp hh
    rw [pieceSuspects_plain (c := '\x7b') rfl]
    exact pieceSuspects_opening s

/-- Every opening is looked at once, where it stands. -/
theorem pieceSuspects_eq (t : Text) : pieceSuspects t = suspects t := by
  induction t with
  | nil => exact pieceSuspects_nil
  | cons c t ih => rw [pieceSuspects_cons, suspects_cons, ih]

end Packaging.Template
