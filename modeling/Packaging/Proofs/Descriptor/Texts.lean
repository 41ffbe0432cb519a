import Packaging.Proofs.Descriptor.Rewrite
import Packaging.Proofs.Document.OpenBlock

/-! The texts that values are written with. None of them breaks its line, so a written document has
the lines of its items whatever stands in it. Only the summary and the description are free text;
what is written for any other setting holds no double quote, so it opens no block by accident, and a
block that is open in front of it is not closed behind it. -/

namespace Packaging

open Document (Item Run)
open Packaging.Path (seenFrom)
open Text (OwnLine Trimmed AllBlank)

/-! ## Marks on a line -/

namespace Written

theorem not_mark_assignment {key t : Text} (hk : IsKey key) (h : '"' ∉ t) :
    ¬Document.blockMark <:+: assignment key (quoted t) := by
  refine not_mark_of_count ?_
  have hkey := List.count_eq_zero.mpr (hk.not_mem (c := '"') rfl)
  simpa [assignment, hkey] using count_quoted_le h

/-- A block that is open in front of an entry without double quotes is not closed behind it. -/
theorem through_item_ne_outside {key : Text} (hk : IsKey key) {w : Written}
    (hq : ∀ t ∈ w.texts, '"' ∉ t) {r : Run} (hr : r.place ≠ .outside) :
    (r.through (w.item key).lines).place ≠ .outside := by
  unfold item
  rcases w.laid_cases with hl | ⟨t, hl, ht⟩
  · have hmark : Document.blockMark <:+: assignment key Document.blockMark :=
      ⟨key ++ [' ', '=', ' '], [], by simp [assignment]⟩
    rw [hl]
    refine Run.through_block_ne_outside hr hmark ?_
    intro l hm
    obtain ⟨t, ht, rfl⟩ := List.mem_map.mp hm
    exact not_mark_indented (not_mark_of_quoteless (hq t ht))
  · have hquote : '"' ∉ t := by
      rcases ht with ht | ⟨rfl, -⟩
      · simp_all
      · exact List.not_mem_nil
    rw [hl]
    exact Run.through_lines_ne_outside hr
      (List.forall_mem_singleton.mpr (not_mark_assignment hk hquote))

/-- What a trimmed text opens a block with is not blank. -/
theorem first_of_quoted {t first : Text} (ht : Trimmed t)
    (h : quoted t = Document.blockMark ++ first) : ¬AllBlank first := by
  have hne : first ≠ [] := by
    rintro rfl
    rcases quoted_cases t with ⟨q, q', r, -, -, hne, hr, he⟩ | ⟨he, hn⟩
    · rw [h, hr] at he
      simp only [Document.blockMark, List.append_nil, List.cons_append, List.cons.injEq] at he
      exact hne (he.1.symm.trans he.2.1)
    · exact hn '"' ['"'] (.inl rfl) (he ▸ h)
  intro hall
  have hl := (trimmed_quoted ht).last
  rw [h, List.getLast?_append_of_ne_nil _ hne, List.getLast?_eq_some_getLast hne] at hl
  have := hall _ (List.getLast_mem hne)
  rw [hl _ rfl] at this
  cases this

end Written

/-! ## Texts of a kind -/

theorem IsLine.ownLine {cls : CharClass} {t : Text} (h : IsLine cls t) : OwnLine t :=
  .of_trimmed h.feedless h.trimmed

namespace Kind

/-- The texts of the kind may hold any character. -/
def IsFree : Kind → Prop
  | .required cls => cls = .free
  | .optional cls => cls = .free
  | .defaulted cls _ => cls = .free
  | .paragraphs => True
  | _ => False

theorem text_of_isLine {cls : CharClass} {t : Text} (h : IsLine cls t) :
    OwnLine t ∧ (cls ≠ .free → '"' ∉ t) :=
  ⟨h.ownLine, fun hc => CharClass.quoteless hc h.accepted⟩

theorem text_of_hazardless {t : Text} (h : Hazardless t) : OwnLine t ∧ '"' ∉ t :=
  ⟨h.ownLine, h.not_mem rfl⟩

theorem text_ofBool (b : Bool) : OwnLine (Text.ofBool b) ∧ '"' ∉ Text.ofBool b := by
  cases b with
  | false => exact ⟨⟨by decide, by decide⟩, by decide⟩
  | true => exact ⟨⟨by decide, by decide⟩, by decide⟩

/-- No text of a value breaks its line, and none holds a double quote unless it is free. -/
theorem texts_written {base : Path} {k : Kind} {v : k.Value} (hb : Hazardless base.text)
    (hv : k.Valid base v) (hd : k.DefaultValid) :
    ∀ t ∈ (k.written base v).texts, OwnLine t ∧ (¬k.IsFree → '"' ∉ t) := by
  have hseen : ∀ p ∈ k.pathsOf v, OwnLine (seenFrom base p) ∧ '"' ∉ seenFrom base p := fun p hp =>
    text_of_hazardless (hazardless_of_mem_pathsOf hb hv hd hp)
  have hnothing : OwnLine [] ∧ '"' ∉ ([] : Text) := ⟨Text.ownLine_nil, nofun⟩
  have hfree : ∀ {t : Text}, OwnLine t ∧ '"' ∉ t → OwnLine t ∧ (¬k.IsFree → '"' ∉ t) :=
    fun h => ⟨h.1, fun _ => h.2⟩
  cases k with
  | required cls => exact List.forall_mem_singleton.mpr (text_of_isLine hv)
  | optional cls =>
    refine List.forall_mem_singleton.mpr ?_
    cases v with
    | none => exact hfree hnothing
    | some t => exact text_of_isLine (hv t rfl)
  | defaulted cls value =>
    exact List.forall_mem_singleton.mpr (text_of_isLine (isLine_of_defaulted hv hd))
  | version =>
    have ht := text_of_isLine hv.1
    exact List.forall_mem_singleton.mpr (hfree ⟨ht.1, ht.2 (by decide)⟩)
  | flag value =>
    exact List.forall_mem_singleton.mpr (hfree (text_ofBool v))
  | path =>
    refine List.forall_mem_singleton.mpr (hfree ?_)
    cases v with
    | unset => exact hnothing
    | disabled => exact text_of_hazardless fun c hc => isLine_disabledWord.hazardless hc
    | resolved p => exact hseen p (List.mem_singleton.mpr rfl)
  | directory value =>
    exact List.forall_mem_singleton.mpr (hfree (hseen v (List.mem_singleton.mpr rfl)))
  | paths =>
    intro t ht
    obtain ⟨p, hp, rfl⟩ := List.mem_map.mp ht
    exact hfree (hseen p hp)
  | items rule =>
    exact fun t ht => hfree (text_of_hazardless fun c hc => (hv.lines t ht).hazardless hc)
  | paragraphs => exact fun t ht => ⟨hv.ownLine ht, fun hn => absurd trivial hn⟩

end Kind

theorem Setting.isFree_iff {s : Setting} :
    s.kind.IsFree ↔ s = .appShortSummary ∨ s = .appDescription := by
  cases s <;> simp [Kind.IsFree]

/-! ## The lines of a written document -/

namespace Descriptor

/-- The scan of a written document is the run over its items, if every text keeps to its line. -/
theorem scan_write {d : Descriptor} (h : ∀ s, ∀ t ∈ (d.written s).texts, OwnLine t)
    (layout : Layout) {r : Run}
    (hr : r = (Run.start 1).through
      ((Layout.documentItems layout d.entryItem).flatMap Item.lines)) :
    Document.scan 1 (Text.lines (d.write layout)) = (r.entries, r.fault?) := by
  obtain ⟨items, hitems, hw⟩ := d.write_eq layout
  have hlines : Text.lines (d.write layout) = items.flatMap Item.lines := by
    rw [hw, Layout.textOf, Text.lines_ended]
    intro l hl
    obtain ⟨i, hi, hl⟩ := List.mem_flatMap.mp hl
    have hmem : i ∈ Layout.documentItems layout d.entryItem := by
      rw [hitems]
      exact List.mem_append_left _ hi
    rcases Layout.passed_or_entry_of_document hmem with ⟨m, rfl, -, ho⟩ | ⟨s, rfl⟩
    · rwa [List.mem_singleton.mp hl]
    · exact Written.ownLine_item s.isKey (h s) l hl
  have hthrough : r = (Run.start 1).through (items.flatMap Item.lines ++ [[]]) := by
    rw [hr, hitems, List.flatMap_append]
    rfl
  rw [hlines, ← Run.scan_concat_empty, Run.scan_eq, hthrough]

end Descriptor

end Packaging
