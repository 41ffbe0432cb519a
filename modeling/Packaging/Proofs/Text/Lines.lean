import Packaging.Proofs.Text.Cut
import Packaging.Proofs.Text.Trim

/-! The lines of a text that was put together from lines. A line comes back if it holds no line feed
and no carriage return that would go with the one behind it. -/

namespace Packaging.Text

/-- The text is one line, and stays what it is in front of a line feed. -/
structure OwnLine (l : Text) : Prop where
  feedless : '\n' ∉ l
  last : l.getLast? ≠ some '\r'

theorem ownLine_nil : OwnLine [] := ⟨nofun, nofun⟩

theorem OwnLine.of_trimmed {l : Text} (hn : '\n' ∉ l) (h : Trimmed l) : OwnLine l := by
  refine ⟨hn, fun he => ?_⟩
  have := h.last _ he
  cases this

/-- A literal is checked on its characters, which it is cheaper to name than to compute. -/
theorem OwnLine.of_literal {s : String} {l : Text} (hs : s = String.ofList l)
    (h : '\n' ∉ l ∧ l.getLast? ≠ some '\r') : OwnLine s.toList := by
  rw [hs, String.toList_ofList]
  exact ⟨h.1, h.2⟩

theorem OwnLine.append {a b : Text} (ha : '\n' ∉ a) (hb : OwnLine b) (hne : b ≠ []) :
    OwnLine (a ++ b) := by
  refine ⟨?_, ?_⟩
  · rw [List.mem_append, not_or]
    exact ⟨ha, hb.feedless⟩
  · rw [List.getLast?_append_of_ne_nil _ hne]
    exact hb.last

theorem OwnLine.tail {c : Char} {l : Text} (h : OwnLine (c :: l)) : OwnLine l := by
  refine ⟨fun hn => h.feedless (List.mem_cons_of_mem _ hn), fun he => h.last ?_⟩
  cases l with
  | nil => cases he
  | cons d l => rwa [List.getLast?_cons_cons]

theorem OwnLine.cons {c : Char} {l : Text} (h : OwnLine l) (hn : c ≠ '\n')
    (hr : l = [] → c ≠ '\r') : OwnLine (c :: l) := by
  refine ⟨fun hm => (List.mem_cons.mp hm).elim (fun he => hn he.symm) h.feedless, fun he => ?_⟩
  cases l with
  | nil => exact hr rfl (by simpa using he)
  | cons d l => exact h.last (by rwa [List.getLast?_cons_cons] at he)

theorem lines_cons_of_ne {c : Char} {r : Text} {l : Text} {ls : List Text} (hc : c ≠ '\n')
    (hr : c ≠ '\r' ∨ r.head? ≠ some '\n') (h : lines r = l :: ls) :
    lines (c :: r) = (c :: l) :: ls := by
  have hcr : ¬(decide (c = '\r') && r.head? == some '\n') = true := by
    rw [Bool.and_eq_true, decide_eq_true_eq, beq_iff_eq]
    intro hx
    obtain ⟨h1, h2⟩ := hx
    rcases hr with hr | hr
    · exact hr h1
    · exact hr h2
  unfold lines
  rw [if_neg hc, if_neg hcr, h]

theorem lines_newline {l : Text} (h : OwnLine l) (r : Text) :
    lines (l ++ '\n' :: r) = l :: lines r := by
  induction l with
  | nil => rw [List.nil_append, lines, if_pos rfl]
  | cons c l ih =>
    have hc : c ≠ '\n' := by
      intro hs
      subst hs
      exact h.feedless (List.mem_cons_self ..)
    refine lines_cons_of_ne hc ?_ (ih h.tail)
    cases l with
    | nil =>
      left
      intro heq
      subst heq
      exact h.last rfl
    | cons d l =>
      right
      intro he
      obtain rfl := Option.some.inj he
      exact h.feedless (by simp)

theorem lines_last {l : Text} (h : '\n' ∉ l) (hne : l ≠ []) : lines l = [l] := by
  induction l with
  | nil => exact absurd rfl hne
  | cons c l ih =>
    rw [List.mem_cons, not_or] at h
    cases l with
    | nil =>
      have hc : ¬c = '\n' := fun he => h.1 he.symm
      unfold lines
      rw [if_neg hc]
      simp [lines]
    | cons d l =>
      refine lines_cons_of_ne (fun he => h.1 he.symm) (.inr ?_) (ih h.2 (List.cons_ne_nil d l))
      intro he
      obtain rfl := Option.some.inj he
      exact h.2 (List.mem_cons_self ..)

/-- Lines, each ended by a line feed. -/
def ended (ls : List Text) : Text := ls.flatMap (· ++ ['\n'])

theorem ended_cons (l : Text) (ls : List Text) : ended (l :: ls) = l ++ '\n' :: ended ls := by
  unfold ended
  rw [List.flatMap_cons, List.append_assoc]
  rfl

theorem ended_append (ls ms : List Text) : ended (ls ++ ms) = ended ls ++ ended ms :=
  List.flatMap_append

theorem lines_ended_append {ls : List Text} (h : ∀ l ∈ ls, OwnLine l) (t : Text) :
    lines (ended ls ++ t) = ls ++ lines t := by
  induction ls with
  | nil => rfl
  | cons l ls ih =>
    rw [ended_cons, List.append_assoc, List.cons_append,
      lines_newline (h l (List.mem_cons_self ..)), ih fun m hm => h m (List.mem_cons_of_mem _ hm)]
    rfl

theorem lines_ended {ls : List Text} (h : ∀ l ∈ ls, OwnLine l) : lines (ended ls) = ls := by
  have := lines_ended_append h []
  rwa [List.append_nil, show lines [] = [] from rfl, List.append_nil] at this

theorem unlines_concat (ls : List Text) (t : Text) : unlines (ls ++ [t]) = ended ls ++ t := by
  induction ls with
  | nil => exact List.intercalate_singleton
  | cons l ls ih =>
    rw [unlines] at ih ⊢
    rw [List.cons_append, List.intercalate_cons_of_ne_nil (by simp), ih, ended_cons]
    simp only [List.append_assoc, List.cons_append, List.nil_append]

theorem ended_eq_unlines {ls : List Text} (h : ls ≠ []) : ended ls = unlines ls ++ ['\n'] := by
  obtain ⟨init, t, rfl⟩ := List.eq_nil_or_concat ls |>.resolve_left h
  rw [List.concat_eq_append, unlines_concat, ended_append, List.append_assoc, ended_cons]
  rfl

theorem lines_unlines_concat {ls : List Text} {t : Text} (h : ∀ l ∈ ls, OwnLine l)
    (ht : '\n' ∉ t) : lines (unlines (ls ++ [t])) = if t = [] then ls else ls ++ [t] := by
  rw [unlines_concat, lines_ended_append h]
  split
  · rename_i he
    rw [he, lines, List.append_nil]
  · rename_i hne
    rw [lines_last ht hne]

/-- The last of the lines must not be empty to come back. -/
theorem lines_unlines {ls : List Text} (h : ∀ l ∈ ls, OwnLine l) (hl : ls.getLast? ≠ some []) :
    lines (unlines ls) = ls := by
  rcases List.eq_nil_or_concat ls with rfl | ⟨init, t, rfl⟩
  · rfl
  · rw [List.concat_eq_append] at h hl ⊢
    have hinit : ∀ l ∈ init, OwnLine l := fun l hm => h l (List.mem_append_left _ hm)
    rw [lines_unlines_concat hinit (h t (by simp)).feedless, if_neg]
    intro he
    subst he
    exact hl List.getLast?_concat

/-- Texts that are trimmed and not empty make one that is, whatever is put between them. -/
theorem trimmed_intercalate (sep : Text) {ts : List Text} (h : ∀ t ∈ ts, Trimmed t ∧ t ≠ [])
    (hne : ts ≠ []) : Trimmed (sep.intercalate ts) ∧ sep.intercalate ts ≠ [] := by
  induction ts with
  | nil => exact absurd rfl hne
  | cons t ts ih =>
    obtain ⟨⟨ht, hnil⟩, hts⟩ := List.forall_mem_cons.mp h
    by_cases he : ts = []
    · rw [he, List.intercalate_singleton]
      exact ⟨ht, hnil⟩
    · obtain ⟨hr, hrne⟩ := ih hts he
      rw [List.intercalate_cons_of_ne_nil he]
      refine ⟨trimmed_append ?_ hr.last (by simp [hnil]) hrne, by simp [hnil]⟩
      rw [List.head?_append_of_ne_nil _ hnil]
      exact ht.head

/-- Lines whose first and last are trimmed and not empty make a trimmed text. -/
theorem trimmed_unlines {l : Text} {ls : List Text} (hl : Trimmed l) (hne : l ≠ [])
    (h : ∀ t ∈ (l :: ls).getLast?, t ≠ [] ∧ ∀ c ∈ t.getLast?, isBlank c = false) :
    Trimmed (unlines (l :: ls)) := by
  refine ⟨?_, ?_⟩
  · obtain ⟨c, r, rfl⟩ := List.exists_cons_of_ne_nil hne
    cases ls with
    | nil => exact hl.head
    | cons m ls =>
      unfold unlines
      rw [List.intercalate_cons_cons]
      exact hl.head
  · rcases List.eq_nil_or_concat (l :: ls) with he | ⟨init, t, he⟩
    · cases he
    · rw [List.concat_eq_append] at he
      rw [he] at h ⊢
      obtain ⟨ht, hb⟩ := h t List.getLast?_concat
      rw [unlines_concat, List.getLast?_append_of_ne_nil _ ht]
      exact hb

/-- Without the blanks at its end, nothing but the last line feed is missing. -/
theorem trimEnd_ended {ls : List Text}
    (h : ∀ t ∈ ls.getLast?, t ≠ [] ∧ ∀ c ∈ t.getLast?, isBlank c = false) :
    trimEnd (ended ls) = unlines ls := by
  rcases List.eq_nil_or_concat ls with rfl | ⟨init, t, rfl⟩
  · rfl
  · rw [List.concat_eq_append] at h ⊢
    obtain ⟨ht, hb⟩ := h t List.getLast?_concat
    rw [ended_eq_unlines (by simp), trimEnd_append (allBlank_singleton isBlank_newline),
      trimEnd_of_last]
    rwa [unlines_concat, List.getLast?_append_of_ne_nil _ ht]

/-! ## The lines of any text -/

theorem feedless_of_mem_lines {t l : Text} (h : l ∈ lines t) : '\n' ∉ l := by
  induction t generalizing l with
  | nil => cases h
  | cons c r ih =>
    unfold lines at h
    split at h
    · rcases List.mem_cons.mp h with rfl | h
      · nofun
      · exact ih h
    · rename_i hc
      split at h
      · exact ih h
      · cases hr : lines r with
        | nil =>
          rw [hr, List.mem_singleton] at h
          rw [h, List.mem_singleton]
          exact fun he => hc he.symm
        | cons m ms =>
          rw [hr] at h
          rcases List.mem_cons.mp h with rfl | h
          · rw [List.mem_cons, not_or]
            exact ⟨fun he => hc he.symm, ih (by rw [hr]; exact List.mem_cons_self ..)⟩
          · exact ih (by rw [hr]; exact List.mem_cons_of_mem _ h)

/-- Nothing but a line feed, or the carriage return that it takes along, gives an empty line. -/
theorem exists_feed_of_lines {t : Text} {ls : List Text} (h : lines t = [] :: ls) :
    ∃ r, t = '\n' :: r ∨ t = '\r' :: '\n' :: r := by
  cases t with
  | nil => cases h
  | cons c r =>
    unfold lines at h
    split at h
    · rename_i hc
      exact ⟨r, .inl (by rw [hc])⟩
    · split at h
      · rename_i hr
        rw [Bool.and_eq_true, decide_eq_true_eq, beq_iff_eq] at hr
        obtain ⟨s, rfl⟩ := List.head?_eq_some_iff.mp hr.2
        exact ⟨s, .inr (by rw [hr.1])⟩
      · cases hl : lines r <;> rw [hl] at h <;> cases h

/-- All lines but the last stay what they are in front of a line feed, if no line feed stands behind
two carriage returns. -/
theorem ownLine_of_mem_lines {t : Text} (h : ¬['\r', '\r', '\n'] <:+: t) :
    ∀ l ∈ (lines t).dropLast, OwnLine l := by
  induction t with
  | nil => nofun
  | cons c r ih =>
    have hr := ih fun hi => h (hi.trans (List.suffix_cons c r).isInfix)
    unfold lines
    split
    · cases hl : lines r with
      | nil => nofun
      | cons m ms =>
        rw [hl] at hr
        rw [List.dropLast_cons_cons]
        exact List.forall_mem_cons.mpr ⟨ownLine_nil, hr⟩
    · rename_i hc
      split
      · exact hr
      · rename_i hcr
        cases hl : lines r with
        | nil => nofun
        | cons m ms =>
          rw [hl] at hr
          cases ms with
          | nil => nofun
          | cons m' ms =>
            simp only
            rw [List.dropLast_cons_cons, List.forall_mem_cons] at hr ⊢
            refine ⟨hr.1.cons hc fun hm he => ?_, hr.2⟩
            -- A line feed right behind the carriage return would have taken it along.
            subst hm he
            obtain ⟨s, rfl | rfl⟩ := exists_feed_of_lines hl
            · exact hcr rfl
            · exact h ⟨[], s, rfl⟩

end Packaging.Text
