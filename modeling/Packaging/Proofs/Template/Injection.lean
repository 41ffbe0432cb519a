import Packaging.Proofs.Template.Replacement

/-! What values can do to the markup of a template: nothing, unless they are markup. The pieces of a
template do not depend on the values, a value that is not markup is escaped once where it stands,
and so two tables that have the same markup give texts with the same delimiters. -/

namespace Packaging.Template

open Markup (isDelimiter Inert)

/-! ## One variable -/

section

variable (values : Values) {x : Variable}

theorem replacement_of_markup (h : x = .descriptionMarkup ∨ x = .historyMarkup) :
    replacement values true x = values x :=
  if_neg fun ⟨_, hd, hh⟩ => h.elim hd hh

theorem inert_replacement (h : ¬(x = .descriptionMarkup ∨ x = .historyMarkup)) :
    Inert (values x) (replacement values true x) := by
  rw [replacement, if_pos ⟨rfl, not_or.mp h⟩, ← Markup.escape_eq_flatMap]
  exact Markup.inert_escape _

/-- What stands for the token at a place is the value verbatim if it is markup, and else inert. -/
theorem shownAt_token {t : Text} {i : Nat} (h : tokenAt? t i = some x) :
    if x = .descriptionMarkup ∨ x = .historyMarkup then shownAt values true t i = values x
    else Inert (values x) (shownAt values true t i) := by
  have hs : shownAt values true t i = replacement values true x := by
    unfold shownAt
    rw [h]
  rw [hs]
  split
  · exact replacement_of_markup values ‹_›
  · exact inert_replacement values ‹_›

end

/-! ## Two tables -/

/-- The characters of a text that delimit something in markup. -/
def delimiters (t : Text) : Text := t.filter isDelimiter

theorem delimiters_of_inert {value t : Text} (h : Inert value t) : delimiters t = [] := by
  unfold delimiters
  rw [List.filter_eq_nil_iff]
  intro c hc
  simp [h.undelimited c hc]

section

variable {v w : Values} (hdescription : v .descriptionMarkup = w .descriptionMarkup)
  (hhistory : v .historyMarkup = w .historyMarkup)

include hdescription hhistory

theorem delimiters_replacement (x : Variable) :
    delimiters (replacement v true x) = delimiters (replacement w true x) := by
  by_cases hx : x = .descriptionMarkup ∨ x = .historyMarkup
  · rw [replacement_of_markup v hx, replacement_of_markup w hx]
    rcases hx with rfl | rfl
    · rw [hdescription]
    · rw [hhistory]
  · rw [delimiters_of_inert (inert_replacement v hx), delimiters_of_inert (inert_replacement w hx)]

/-- No piece but a variable's own depends on the values. -/
theorem delimiters_expand_piece (p : Piece) :
    delimiters (p.expand v true) = delimiters (p.expand w true) := by
  cases p with
  | known x =>
    simp only [Piece.expand, shown_eq_replacement]
    exact delimiters_replacement hdescription hhistory x
  | plain c => rfl
  | unknown name => rfl
  | unclosed tail => rfl

theorem delimiters_expanded (t : Text) :
    delimiters (expanded v true t) = delimiters (expanded w true t) := by
  unfold expanded delimiters
  rw [List.filter_flatMap, List.filter_flatMap]
  exact List.flatMap_congr fun p _ => delimiters_expand_piece hdescription hhistory p

end

/-- Values inject no markup. Tables that agree on the markup variables give the same delimiters in
the same order, whatever else they hold; and in what a template becomes, place by place, each token
of a markup variable is its value and any other token is inert text that reads as its value. -/
theorem expand_injects_no_markup {v w : Values}
    (hdescription : v .descriptionMarkup = w .descriptionMarkup)
    (hhistory : v .historyMarkup = w .historyMarkup) (item : Option Text) (t : Text)
    (ws : Warnings) :
    delimiters (expand v true item t ws).1 = delimiters (expand w true item t ws).1 ∧
    ∀ values : Values,
      (expand values true item t ws).1 = (List.range t.length).flatMap (shownAt values true t) ∧
      ∀ i x, tokenAt? t i = some x →
        if x = .descriptionMarkup ∨ x = .historyMarkup then shownAt values true t i = values x
        else Inert (values x) (shownAt values true t i) := by
  refine ⟨delimiters_expanded hdescription hhistory t, fun values => ?_⟩
  refine ⟨expanded_eq_replaced values true t, ?_⟩
  exact fun i x h => shownAt_token values h

/-- Values that would close a tag, go on with one of their own and name further tokens. -/
def hostileValues : Values
  | .descriptionMarkup => "<p>a &amp; b</p>".toList
  | .historyMarkup => []
  | _ => "\"/><b c='${APPSTREAM_DESCRIPTION_XML}&amp;".toList

/-- Values without any markup but that of the description. -/
def nameValues : Values
  | .descriptionMarkup => "<p>a &amp; b</p>".toList
  | .historyMarkup => []
  | x => x.name

theorem expand_injects_no_markup_hostileValues :
    hostileValues .descriptionMarkup = nameValues .descriptionMarkup ∧
    hostileValues .historyMarkup = nameValues .historyMarkup ∧
    delimiters (expand hostileValues true none
        "<a b=\"${APP_ID}\">${APPSTREAM_DESCRIPTION_XML}</a>".toList .empty).1 =
      delimiters (expand nameValues true none
        "<a b=\"${APP_ID}\">${APPSTREAM_DESCRIPTION_XML}</a>".toList .empty).1 ∧
    Inert (hostileValues .appId) (shownAt hostileValues true
      "<a b=\"${APP_ID}\">${APPSTREAM_DESCRIPTION_XML}</a>".toList 6) := by
  have h := expand_injects_no_markup (v := hostileValues) (w := nameValues) rfl rfl none
    "<a b=\"${APP_ID}\">${APPSTREAM_DESCRIPTION_XML}</a>".toList .empty
  refine ⟨rfl, rfl, h.1, ?_⟩
  exact (h.2 hostileValues).2 6 .appId (by decide)

end Packaging.Template
