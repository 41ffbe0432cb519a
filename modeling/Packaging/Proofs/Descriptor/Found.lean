import Packaging.Proofs.Descriptor.Written
import Packaging.Proofs.Text.Items
import Packaging.Proofs.Text.Paragraphs

/-! Values that are found as they were written: a trimmed text, items of which none is cut, and
paragraphs. -/

namespace Packaging.Written

open Text (OwnLine Trimmed AllBlank Paragraphs ended kept itemsAt)

/-! ## One text -/

theorem value_line_of_trimmed {t : Text} (h : Trimmed t) : (line t).value = t := by
  show Document.unquoted (Text.trim (quoted t)) = t
  rw [(trimmed_quoted h).trim_eq, unquoted_quoted]

theorem found?_of_value {w : Written} {t : Text} (hv : w.value = t) (h : Trimmed t) :
    w.found? = (some t).filter (!·.isEmpty) := by rw [found?, hv, h.trim_eq]

theorem found?_of_ne_nil {w : Written} {t : Text} (hv : w.value = t) (h : Trimmed t)
    (hne : t ≠ []) : w.found? = some t := by
  rw [found?_of_value hv h, Option.filter_some, if_pos (by simpa using hne)]

/-- The text starts like a block, and ends so that it gets no quotes around it. -/
def OpensBlock (v : Text) : Prop := Document.blockMark <+: v ∧ v.getLast? ≠ some '"'

instance (v : Text) : Decidable (OpensBlock v) :=
  inferInstanceAs (Decidable (Document.blockMark <+: v ∧ v.getLast? ≠ some '"'))

theorem OpensBlock.quoted_eq {v : Text} (h : OpensBlock v) : quoted v = v := by
  obtain ⟨⟨t, rfl⟩, hlast⟩ := h
  rcases quoted_cases (Document.blockMark ++ t) with ⟨q, _, r, -, -, -, ht, -⟩ | ⟨he, -⟩
  · -- a pair of quotes around the text would end it with the first character of the mark
    obtain rfl : '"' = q := (List.cons.inj ht).1
    rw [ht] at hlast
    exact absurd List.getLast?_concat hlast
  · exact he

/-- A text is written with the mark of a block in front only if it starts like one. -/
theorem mark_quoted_iff {v : Text} (hv : Trimmed v) :
    Document.blockMark <+: Text.trim (quoted v) ↔ OpensBlock v := by
  rw [(trimmed_quoted hv).trim_eq]
  constructor
  · intro hm
    rcases quoted_cases v with ⟨q, q', r, -, -, hne, ht, he⟩ | ⟨he, hn⟩
    · -- the two kinds of quotes stand in front, and the mark is of one kind
      rw [he, ht] at hm
      obtain ⟨rfl, hm⟩ := List.cons_prefix_cons.mp hm
      obtain ⟨rfl, -⟩ := List.cons_prefix_cons.mp hm
      exact absurd rfl hne
    · rw [he] at hm
      refine ⟨hm, fun hlast => ?_⟩
      obtain ⟨t, rfl⟩ := hm
      obtain ⟨r, hr⟩ : ∃ r, ['"', '"'] ++ t = r ++ ['"'] := List.getLast?_eq_some_iff.mp hlast
      exact hn '"' r (.inl rfl) (congrArg ('"' :: ·) hr)
  · intro h
    rw [h.quoted_eq]
    exact h.1

theorem not_mark_quoted {t : Text} (ht : Trimmed t) (h : ¬Document.blockMark <+: t) :
    ¬Document.blockMark <+: Text.trim (quoted t) :=
  fun hm => h ((mark_quoted_iff ht).mp hm).1

theorem clean_line {t : Text} (hn : '\n' ∉ t) (ht : Trimmed t) (h : ¬Document.blockMark <+: t) :
    (line t).Clean := ⟨.of_trimmed hn ht, not_mark_quoted ht h⟩

theorem clean_list {ts : List Text} (hn : ∀ t ∈ ts, '\n' ∉ t) (ht : ∀ t ∈ ts, Trimmed t)
    (h : ∀ t ∈ ts, ¬Document.blockMark <:+: t) : (list ts).Clean := by
  have hline : ∀ t ∈ ts, OwnLine t ∧ ¬Document.blockMark <+: Text.trim (quoted t) := fun t hm =>
    clean_line (hn t hm) (ht t hm) fun hp => h t hm hp.isInfix
  have hblock : ∀ t ∈ ts, OwnLine t ∧ ¬Document.blockMark <:+: t := fun t hm =>
    ⟨.of_trimmed (hn t hm) (ht t hm), h t hm⟩
  match ts with
  | [] => exact ⟨Text.ownLine_nil, by decide⟩
  | [t] =>
    unfold Clean
    rw [laid]
    by_cases hs : t.contains ';' = true
    · rw [if_pos hs]
      exact hblock
    · rw [if_neg hs]
      exact hline t (List.mem_singleton.mpr rfl)
  | _ :: _ :: _ => exact hblock

/-! ## Items -/

theorem value_list_singleton {t : Text} (h : ';' ∉ t) : (list [t]).value = (line t).value := by
  have hc : ¬t.contains ';' = true := fun hc => h (List.contains_iff_mem.mp hc)
  rw [value, laid, if_neg hc]
  rfl

theorem value_list_semicolon {t : Text} (h : ';' ∈ t) : (list [t]).value = blockValue [t] := by
  rw [value, laid, if_pos (List.contains_iff_mem.mpr h)]

theorem kept_indented (t : Text) : kept (indented t) = kept t := by
  unfold indented
  split
  · rename_i h
    rw [List.isEmpty_iff.mp h]
  · have := Text.kept_between Text.allBlank_spaces Text.allBlank_nil t
    rwa [List.append_nil] at this

theorem feedless_indented {t : Text} (h : '\n' ∉ t) : '\n' ∉ indented t := by
  unfold indented
  split
  · exact List.not_mem_nil
  · simpa using h

/-- The lines of a block are the items of its value. -/
theorem itemsAt_blockValue {ts : List Text} (h : ∀ t ∈ ts, '\n' ∉ t) :
    itemsAt '\n' (blockValue ts) = ts.flatMap kept := by
  have hl : ∀ l ∈ ts.map indented, '\n' ∉ l := by
    intro l hl
    obtain ⟨t, ht, rfl⟩ := List.mem_map.mp hl
    exact feedless_indented (h t ht)
  rw [blockValue, Text.itemsAt_trim, Text.itemsAt_cons rfl, Text.itemsAt_ended hl,
    List.flatMap_map]
  exact List.flatMap_congr fun t _ => kept_indented t

/-- A value with a line feed has its lines for items; any other is cut at its semicolons. -/
theorem items_blockValue {ts : List Text} (h : ∀ t ∈ ts, '\n' ∉ t) :
    Text.items (blockValue ts) = ts.flatMap kept ∨
      ts.flatMap kept = kept (blockValue ts) ∧
        Text.items (blockValue ts) = itemsAt ';' (blockValue ts) := by
  by_cases hn : '\n' ∈ blockValue ts
  · left
    rw [Text.items_of_mem hn, itemsAt_blockValue h]
  · right
    rw [← itemsAt_blockValue h, Text.itemsAt_of_not_mem hn, Text.items_of_not_mem hn]
    exact ⟨rfl, rfl⟩

theorem length_kept_le (t : Text) : (kept t).length ≤ 1 := by
  unfold kept
  split
  · exact Nat.zero_le _
  · exact Nat.le_refl _

theorem flatMap_kept {ts : List Text} (h : ∀ t ∈ ts, Trimmed t) (hne : ∀ t ∈ ts, t ≠ []) :
    ts.flatMap kept = ts := by
  induction ts with
  | nil => rfl
  | cons t ts ih =>
    rw [List.flatMap_cons, Text.kept_of_trimmed (h t (List.mem_cons_self ..))
      (hne t (List.mem_cons_self ..)), ih (fun s hs => h s (List.mem_cons_of_mem _ hs))
      fun s hs => hne s (List.mem_cons_of_mem _ hs)]
    rfl

theorem items_of_plain {t : Text} (hn : '\n' ∉ t) (hs : ';' ∉ t) : Text.items t = kept t := by
  rw [Text.items_of_not_mem hn, Text.itemsAt_of_not_mem hs]

/-- Items come back unless a single one of them holds a semicolon. -/
theorem items_value_list {ts : List Text} (hn : ∀ t ∈ ts, '\n' ∉ t) (h : ∀ t ∈ ts, Trimmed t)
    (hne : ∀ t ∈ ts, t ≠ []) (hs : ∀ t, ts = [t] → ';' ∉ t) :
    Text.items (Text.trim (list ts).value) = ts := by
  match ts with
  | [] => rfl
  | [t] =>
    have ht := h t (List.mem_singleton.mpr rfl)
    rw [value_list_singleton (hs t rfl), value_line_of_trimmed ht, ht.trim_eq,
      items_of_plain (hn t (List.mem_singleton.mpr rfl)) (hs t rfl),
      Text.kept_of_trimmed ht (hne t (List.mem_singleton.mpr rfl))]
  | a :: b :: ts =>
    show Text.items (Text.trim (blockValue (a :: b :: ts))) = _
    rw [blockValue, Text.trim_trim, ← blockValue]
    rcases items_blockValue hn with hi | ⟨hk, -⟩
    · rw [hi, flatMap_kept h hne]
    · rw [flatMap_kept h hne] at hk
      have hl := length_kept_le (blockValue (a :: b :: ts))
      rw [← hk, List.length_cons, List.length_cons] at hl
      omega

/-! ## Paragraphs -/

theorem indented_of_ne_nil {t : Text} (h : t ≠ []) : indented t = [' ', ' ', ' ', ' '] ++ t := by
  unfold indented
  rw [if_neg (by simpa using h)]
  rfl

theorem trim_indented (t : Text) : Text.trim (indented t) = Text.trim t := by
  unfold indented
  split
  · rename_i h
    rw [List.isEmpty_iff.mp h]
  · exact Text.trim_append_left Text.allBlank_spaces t

theorem last_of_paragraphs {l : Text} {ls : List Text} (h : Paragraphs (l :: ls)) :
    ∀ t ∈ (l :: ls.map indented).getLast?,
      t ≠ [] ∧ ∀ c ∈ t.getLast?, Text.isBlank c = false := by
  have hlast := h.getLast?
  intro t ht
  cases ls with
  | nil =>
    have ht : l = t := Option.some.inj ht
    rw [← ht]
    exact ⟨fun he => hlast (by rw [he]; rfl), (h.trimmed l (List.mem_cons_self ..)).last⟩
  | cons m ls =>
    rw [List.map_cons, List.getLast?_cons_cons, ← List.map_cons, List.getLast?_map,
      Option.mem_def, Option.map_eq_some_iff] at ht
    obtain ⟨s, hs, rfl⟩ := ht
    rw [List.getLast?_cons_cons, hs] at hlast
    have hne : s ≠ [] := fun he => hlast (by rw [he])
    have hm := h.trimmed s (List.mem_cons_of_mem _ (List.mem_of_getLast? hs))
    rw [indented_of_ne_nil hne, List.getLast?_append_of_ne_nil _ hne]
    exact ⟨by simp, hm.last⟩

/-- The first line of a block loses its indentation, and the others keep it. -/
theorem blockValue_eq {l : Text} {ls : List Text} (h : Paragraphs (l :: ls)) :
    blockValue (l :: ls) = Text.unlines (l :: ls.map indented) := by
  have hl : l ≠ [] := by
    intro he
    subst he
    exact h.head rfl
  have htrim : Trimmed (Text.unlines (l :: ls.map indented)) :=
    Text.trimmed_unlines (h.trimmed l (List.mem_cons_self ..)) hl (last_of_paragraphs h)
  have hblock : '\n' :: ended ((l :: ls).map indented) =
      ['\n', ' ', ' ', ' ', ' '] ++ Text.unlines (l :: ls.map indented) ++ ['\n'] := by
    rw [List.append_assoc, ← Text.ended_eq_unlines (List.cons_ne_nil _ _), List.map_cons,
      Text.ended_cons, Text.ended_cons, indented_of_ne_nil hl]
    rfl
  unfold blockValue
  rw [hblock]
  refine htrim.trim_between ?_ (Text.allBlank_singleton rfl)
  exact (Text.allBlank_singleton Text.isBlank_newline).append Text.allBlank_spaces

theorem trimmed_blockValue (ts : List Text) : Trimmed (blockValue ts) := Text.trimmed_trim _

theorem paragraphLines_blockValue {l : Text} {ls : List Text} (h : Paragraphs (l :: ls)) :
    Text.paragraphLines (blockValue (l :: ls)) = l :: ls := by
  have hown : ∀ t ∈ l :: ls.map indented, OwnLine t := by
    intro t ht
    rcases List.mem_cons.mp ht with rfl | ht
    · exact h.ownLine (List.mem_cons_self ..)
    · obtain ⟨s, hs, rfl⟩ := List.mem_map.mp ht
      exact ownLine_indented (h.ownLine (List.mem_cons_of_mem _ hs))
  have hlast : (l :: ls.map indented).getLast? ≠ some [] := fun he =>
    (last_of_paragraphs h [] he).1 rfl
  refine h.paragraphLines_eq ?_
  rw [blockValue_eq h, Text.lines_unlines hown hlast, List.map_cons, List.map_map,
    (h.trimmed l (List.mem_cons_self ..)).trim_eq]
  refine congrArg (l :: ·) ((List.map_congr_left fun t ht => ?_).trans (List.map_id _))
  exact (trim_indented t).trans (h.trimmed t (List.mem_cons_of_mem _ ht)).trim_eq

theorem paragraphLines_of_line {t : Text} (h : Paragraphs [t]) : Text.paragraphLines t = [t] := by
  have hne : t ≠ [] := by
    intro he
    subst he
    exact h.head rfl
  refine h.paragraphLines_eq ?_
  rw [Text.lines_last (h.feedless t (List.mem_cons_self ..)) hne, List.map_singleton,
    (h.trimmed t (List.mem_cons_self ..)).trim_eq]

/-- Paragraphs come back from a line or from a block. -/
theorem found?_paragraphs {l : Text} {ls : List Text} (h : Paragraphs (l :: ls)) :
    ∃ t, (list (l :: ls)).found? = some t ∧ Text.paragraphLines t = l :: ls := by
  have hl : l ≠ [] := by
    intro heq
    subst heq
    exact h.head rfl
  have hblock : ∃ t, (some (Text.trim (blockValue (l :: ls)))).filter (!·.isEmpty) = some t ∧
      Text.paragraphLines t = l :: ls := by
    have hp := paragraphLines_blockValue h
    refine ⟨blockValue (l :: ls), ?_, hp⟩
    rw [(trimmed_blockValue _).trim_eq, Option.filter_some, if_pos]
    rw [Bool.not_eq_true', List.isEmpty_eq_false_iff]
    intro he
    rw [he] at hp
    cases hp
  cases ls with
  | nil =>
    by_cases hs : ';' ∈ l
    · unfold found?
      rw [value_list_semicolon hs]
      exact hblock
    · have ht := h.trimmed l (List.mem_cons_self ..)
      refine ⟨l, found?_of_ne_nil ?_ ht hl, paragraphLines_of_line h⟩
      rw [value_list_singleton hs, value_line_of_trimmed ht]
  | cons m ls => exact hblock

end Packaging.Written
