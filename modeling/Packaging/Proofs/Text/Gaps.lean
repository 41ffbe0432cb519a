import Mathlib.Data.List.Forall2
import Packaging.Proofs.Text.Paragraphs

/-! Where the empty lines of paragraphs stand. Reading keeps every line that is not blank, in its
place, and between two neighbours one empty line for any number of blank ones. So lines that were
read are read again as they are, whatever blanks each of them is moved in by. -/

namespace Packaging.Text

/-! ## Squeezing part by part -/

/-- An empty line is kept in front of a line that is not. -/
theorem squeeze_empty_cons (ls : List Text) :
    squeeze ([] :: ls) =
      if (squeeze ls).head?.getD [] = [] then squeeze ls else [] :: squeeze ls := by
  rw [squeeze]
  cases squeeze ls with
  | nil => rfl
  | cons m ms => cases m <;> rfl

theorem filter_squeeze (ls : List Text) : (squeeze ls).filter (· ≠ []) = ls.filter (· ≠ []) := by
  induction ls with
  | nil => rfl
  | cons l ls ih =>
    by_cases hl : l = []
    · subst hl
      rw [squeeze_empty_cons, List.filter_cons_of_neg (by simp), ← ih]
      split
      · rfl
      · exact List.filter_cons_of_neg (by simp)
    · rw [squeeze_line hl, List.filter_cons_of_pos (by simpa using hl), ih,
        List.filter_cons_of_pos (by simpa using hl)]

/-- What is left of the empty lines between two others. -/
def gap (empties : List Text) : List Text := if empties = [] then [] else [[]]

theorem squeeze_gap {empties : List Text} (he : ∀ e ∈ empties, e = []) {l : Text} (hl : l ≠ [])
    (ls : List Text) : squeeze (empties ++ l :: ls) = gap empties ++ l :: squeeze ls := by
  induction empties with
  | nil => exact squeeze_line hl ls
  | cons e empties ih =>
    obtain ⟨rfl, hes⟩ := List.forall_mem_cons.mp he
    rw [List.cons_append, squeeze_empty_cons, ih hes]
    cases empties with
    | nil => exact if_neg hl
    | cons e empties => exact if_pos rfl

/-- Up to a line that is not empty, lines are squeezed alike whatever stands behind it. -/
theorem exists_squeeze_append (ls : List Text) {l : Text} (hl : l ≠ []) :
    ∃ front, front.filter (· ≠ []) = ls.filter (· ≠ []) ∧
      ∀ ms, squeeze (ls ++ l :: ms) = front ++ l :: squeeze ms := by
  induction ls with
  | nil => exact ⟨[], rfl, squeeze_line hl⟩
  | cons m ls ih =>
    obtain ⟨front, hfilter, hsqueeze⟩ := ih
    by_cases hm : m = []
    · subst hm
      -- Whether the empty line is kept is seen before the line at the latest.
      have hhead : ∀ ms, (front ++ l :: squeeze ms).head?.getD [] = front.head?.getD l := by
        cases front <;> exact fun _ => rfl
      refine ⟨if front.head?.getD l = [] then front else [] :: front, ?_, fun ms => ?_⟩
      · rw [List.filter_cons_of_neg (by simp), ← hfilter]
        split
        · rfl
        · exact List.filter_cons_of_neg (by simp)
      · rw [List.cons_append, squeeze_empty_cons, hsqueeze, hhead]
        split <;> rfl
    · refine ⟨m :: front, ?_, fun ms => ?_⟩
      · rw [List.filter_cons_of_pos (by simpa using hm), hfilter,
          List.filter_cons_of_pos (by simpa using hm)]
      · rw [List.cons_append, squeeze_line hm, hsqueeze, List.cons_append]

/-! ## Reading paragraphs -/

theorem filter_dropWhile_isEmpty (ls : List Text) :
    (ls.dropWhile (·.isEmpty)).filter (· ≠ []) = ls.filter (· ≠ []) := by
  induction ls with
  | nil => rfl
  | cons l ls ih =>
    cases l with
    | nil => exact ih
    | cons c r => rfl

theorem dropWhile_isEmpty_append (ls : List Text) {l : Text} (hl : l ≠ []) (ms : List Text) :
    (ls ++ l :: ms).dropWhile (·.isEmpty) = ls.dropWhile (·.isEmpty) ++ l :: ms := by
  have hstop : (l :: ms).dropWhile (·.isEmpty) = l :: ms :=
    List.dropWhile_cons_of_neg (by simpa using hl)
  rw [List.dropWhile_append, hstop]
  split
  · rename_i he
    rw [List.isEmpty_iff.mp he, List.nil_append]
  · rfl

theorem filter_paragraphLines (t : Text) :
    (paragraphLines t).filter (· ≠ []) = ((lines t).map trim).filter (· ≠ []) := by
  rw [paragraphLines, filter_dropWhile_isEmpty, filter_squeeze]

/-- Two lines that have only blank lines between them keep one empty line for those. -/
theorem exists_paragraphLines_gap {t : Text} {front empties back : List Text} {l m : Text}
    (ht : (lines t).map trim = front ++ l :: empties ++ m :: back) (hl : l ≠ []) (hm : m ≠ [])
    (he : ∀ e ∈ empties, e = []) :
    ∃ before after, paragraphLines t = before ++ l :: gap empties ++ m :: after ∧
      before.filter (· ≠ []) = front.filter (· ≠ []) ∧
      after.filter (· ≠ []) = back.filter (· ≠ []) := by
  obtain ⟨squeezed, hfilter, hsqueeze⟩ := exists_squeeze_append front hl
  refine ⟨squeezed.dropWhile (·.isEmpty), squeeze back, ?_, ?_, filter_squeeze back⟩
  · rw [paragraphLines, ht, List.append_assoc, List.cons_append, hsqueeze, squeeze_gap he hm,
      dropWhile_isEmpty_append _ hl, List.append_assoc, List.cons_append]
  · rw [filter_dropWhile_isEmpty, hfilter]

/-! ## Reading again -/

/-- The line moved in by blanks, unless it is empty. -/
inductive MovedIn : Text → Text → Prop
  | empty : MovedIn [] []
  | line {l indent : Text} : l ≠ [] → AllBlank indent → '\n' ∉ indent → MovedIn l (indent ++ l)

theorem MovedIn.trim_eq {l m : Text} (h : MovedIn l m) (hl : Trimmed l) : trim m = l := by
  cases h with
  | empty => rfl
  | line _ hi _ => rw [trim_append_left hi, hl.trim_eq]

theorem MovedIn.ownLine {l m : Text} (h : MovedIn l m) (hl : OwnLine l) : OwnLine m := by
  cases h with
  | empty => exact hl
  | line hne _ hn => exact .append hn hl hne

theorem movedIn_self (l : Text) : MovedIn l l := by
  by_cases hl : l = []
  · subst hl
    exact .empty
  · exact @MovedIn.line l [] hl allBlank_nil List.not_mem_nil

theorem of_movedIn {ls ms : List Text} (hm : List.Forall₂ MovedIn ls ms)
    (h : ∀ l ∈ ls, OwnLine l ∧ Trimmed l) : (∀ m ∈ ms, OwnLine m) ∧ ms.map trim = ls := by
  induction hm with
  | nil => exact ⟨List.forall_mem_nil _, rfl⟩
  | cons hmoved _ ih =>
    obtain ⟨⟨hown, htrim⟩, hrest⟩ := List.forall_mem_cons.mp h
    obtain ⟨howns, hmap⟩ := ih hrest
    refine ⟨List.forall_mem_cons.mpr ⟨hmoved.ownLine hown, howns⟩, ?_⟩
    rw [List.map_cons, hmoved.trim_eq htrim, hmap]

theorem Paragraphs.paragraphLines_movedIn {ls ms : List Text} (h : Paragraphs ls)
    (hm : List.Forall₂ MovedIn ls ms) : paragraphLines (unlines ms) = ls := by
  obtain ⟨hown, hmap⟩ := of_movedIn hm fun l hl => ⟨h.ownLine hl, h.trimmed l hl⟩
  refine h.paragraphLines_eq ?_
  rw [lines_unlines hown, hmap]
  intro hlast
  refine h.getLast? ?_
  rw [← hmap, List.getLast?_map, hlast]
  rfl

/-- A text is read as its lines that are not blank, with one empty line between two neighbours
exactly where blank lines stand between them in the text, and with none at either end. Put together
again these lines are read as themselves, also if they are moved in. -/
theorem paragraphLines_normal_form (t : Text) :
    (paragraphLines t).filter (· ≠ []) = ((lines t).map trim).filter (· ≠ []) ∧
    (paragraphLines t).head? ≠ some [] ∧ (paragraphLines t).getLast? ≠ some [] ∧
    (∀ front l empties m back, (lines t).map trim = front ++ l :: empties ++ m :: back →
      l ≠ [] → m ≠ [] → (∀ e ∈ empties, e = []) →
      ∃ before after, paragraphLines t = before ++ l :: gap empties ++ m :: after ∧
        before.filter (· ≠ []) = front.filter (· ≠ []) ∧
        after.filter (· ≠ []) = back.filter (· ≠ [])) ∧
    paragraphLines (unlines (paragraphLines t)) = paragraphLines t ∧
    ∀ ms, List.Forall₂ MovedIn (paragraphLines t) ms →
      paragraphLines (unlines ms) = paragraphLines t := by
  have h := paragraphs_paragraphLines t
  refine ⟨filter_paragraphLines t, h.head, h.getLast?, ?_, ?_, fun _ => h.paragraphLines_movedIn⟩
  · intro front l empties m back ht hl hm he
    exact exists_paragraphLines_gap ht hl hm he
  · exact h.paragraphLines_movedIn (List.forall₂_same.mpr fun l _ => movedIn_self l)

def spacedText : Text := " \n\ta\n\u00a0\n\n b\nc \n\n".toList

theorem paragraphLines_normal_form_spacedText :
    (lines spacedText).map trim = [[]] ++ ['a'] :: [[], []] ++ ['b'] :: [['c'], []] ∧
    (∃ before after, paragraphLines spacedText = before ++ ['a'] :: gap [[], []] ++ ['b'] :: after ∧
      before.filter (· ≠ []) = [[]].filter (· ≠ []) ∧
      after.filter (· ≠ []) = [['c'], []].filter (· ≠ [])) ∧
    List.Forall₂ MovedIn (paragraphLines spacedText)
      ["\u3000a".toList, [], "\rb".toList, "c".toList] ∧
    paragraphLines (unlines ["\u3000a".toList, [], "\rb".toList, "c".toList]) =
      paragraphLines spacedText := by
  have hlines : (lines spacedText).map trim =
      [[]] ++ ['a'] :: [[], []] ++ ['b'] :: [['c'], []] := by decide
  have hread : paragraphLines spacedText = [['a'], [], ['b'], ['c']] := by decide
  have hmoved : List.Forall₂ MovedIn (paragraphLines spacedText)
      ["\u3000a".toList, [], "\rb".toList, "c".toList] := by
    rw [hread]
    have ha := MovedIn.line (l := ['a']) nofun (allBlank_singleton (c := '\u3000') rfl) (by decide)
    have hb := MovedIn.line (l := ['b']) nofun (allBlank_singleton (c := '\r') rfl) (by decide)
    exact .cons ha (.cons .empty (.cons hb (.cons (movedIn_self ['c']) .nil)))
  obtain ⟨-, -, -, hgap, -, hagain⟩ := paragraphLines_normal_form spacedText
  exact ⟨hlines, hgap _ _ _ _ _ hlines nofun nofun (by decide), hmoved, hagain _ hmoved⟩

end Packaging.Text
