import Packaging.Proofs.History.Records
import Packaging.Proofs.Text.Weight

/-! The plain text of a history that was read, read again. Every record has a line of its own,
whose sign is taken off again; but more signs behind it go along, so a record comes back exactly if
its own text does not start with its sign. Reading again makes no record longer, and each record
that starts with its sign shorter, or drops it; so no other record can make up for it. -/

namespace Packaging

open Text (trim Trimmed OwnLine)

namespace Record

/-- What marks the line of a record. -/
def sign : Record → Char
  | .release _ _ => '+'
  | .change _ => '-'

@[simp] theorem sign_release (version : Text) (date : Calendar.Date) :
    (release version date).sign = '+' := rfl

@[simp] theorem sign_change (t : Text) : (change t).sign = '-' := rfl

/-- The text does not start with the sign that is put in front of it. -/
def Settled (r : Record) : Prop := r.text.head? ≠ some r.sign

instance : DecidablePred Settled := fun _ => inferInstanceAs (Decidable (_ ≠ _))

/-- The line that the record is written on. -/
def line : Record → Text
  | .release version date => '+' :: ' ' :: version ++ ';' :: date.text
  | .change t => '-' :: ' ' :: t

theorem plain_eq (r : Record) : r.plain = r.line ++ ['\n'] := by
  cases r <;> simp [plain, line]

theorem Valid.trimmed_line {r : Record} (h : r.Valid) : Trimmed r.line := by
  cases r with
  | release version date =>
    refine Text.trimmed_append (by simp; decide) ?_ nofun (List.cons_ne_nil ';' date.text)
    rw [List.getLast?_cons_of_ne_nil date.text_ne_nil]
    exact date.trimmed_text.last
  | change t =>
    exact Text.trimmed_append (a := ['-', ' ']) (by simp; decide) h.trimmed.last nofun h.ne_nil

theorem Valid.ownLine {r : Record} (h : r.Valid) (hn : '\n' ∉ r.text) : OwnLine r.line := by
  refine .of_trimmed ?_ h.trimmed_line
  cases r with
  | release version date =>
    have hd : '\n' ∉ date.text := date.not_mem_text (by decide)
    simp_all [line]
  | change t => simpa [line] using hn

end Record

namespace History

/-! ## The lines of the plain text -/

/-- The lines of the plain text, those between releases included. -/
def linesAfter (begun : Bool) : List Record → List Text
  | [] => []
  | r :: rs => (if begun && r.isRelease then [[]] else []) ++ r.line :: linesAfter true rs

theorem plainAfter_eq (begun : Bool) (rs : List Record) :
    plainAfter begun rs = Text.ended (linesAfter begun rs) := by
  induction rs generalizing begun with
  | nil => rfl
  | cons r rs ih =>
    rw [plainAfter, linesAfter, Text.ended_append, Text.ended_cons, ih, r.plain_eq]
    cases begun && r.isRelease <;> simp [Text.ended]

theorem ownLine_of_mem_linesAfter {begun : Bool} {rs : List Record}
    (h : ∀ r ∈ rs, r.Valid ∧ '\n' ∉ r.text) : ∀ l ∈ linesAfter begun rs, OwnLine l := by
  induction rs generalizing begun with
  | nil => nofun
  | cons r rs ih =>
    obtain ⟨⟨hv, hn⟩, hrs⟩ := List.forall_mem_cons.mp h
    intro l hl
    simp only [linesAfter, List.mem_append, List.mem_cons] at hl
    rcases hl with hl | rfl | hl
    · obtain ⟨-, rfl⟩ : _ ∧ l = [] := by simpa using hl
      exact Text.ownLine_nil
    · exact hv.ownLine hn
    · exact ih hrs l hl

theorem ofText_plain {h : History} (hv : ∀ r ∈ h.records, r.Valid ∧ '\n' ∉ r.text) :
    ofText h.plain = ofLines (linesAfter false h.records) := by
  rw [ofText, plain, plainAfter_eq, Text.lines_ended (ownLine_of_mem_linesAfter hv)]

/-! ## Signs taken off again -/

theorem stripSign_cons (sign : Char) (t : Text) :
    stripSign sign (sign :: ' ' :: t) = stripSign sign t := by
  simp [stripSign]

theorem stripSign_of_head {sign : Char} {t : Text} (ht : Trimmed t) (h : t.head? ≠ some sign) :
    stripSign sign t = t := by
  cases t with
  | nil => rfl
  | cons c r =>
    have hc : c ≠ ' ' := by
      rintro rfl
      have := ht.head _ rfl
      cases this
    have hs : c ≠ sign := by simpa using h
    rw [stripSign, List.dropWhile_cons_of_neg (by simp [hc, hs]), ht.trim_eq]

theorem length_stripSign_le (sign : Char) (t : Text) : (stripSign sign t).length ≤ t.length :=
  (Text.trim_infix _).length_le.trans (List.dropWhile_sublist _).length_le

theorem length_stripSign_lt {sign : Char} {t : Text} (h : t.head? = some sign) :
    (stripSign sign t).length < t.length := by
  cases t with
  | nil => cases h
  | cons c r =>
    obtain rfl := Option.some.inj h
    have hd := (List.dropWhile_sublist (l := r) fun d => d == c || d == ' ').length_le
    rw [stripSign, List.dropWhile_cons_of_pos (by simp), List.length_cons]
    exact Nat.lt_succ_of_le ((Text.trim_infix _).length_le.trans hd)

/-! ## One record read again -/

theorem hasSign_cons {sign : Char} (h : sign ≠ ' ') (t : Text) :
    hasSign sign (sign :: ' ' :: t) = true := by
  simp [hasSign, List.isPrefixOf, h]

/-- A release is read again unless its version consists of signs and blanks. -/
theorem release?_line {version : Text} {date : Calendar.Date}
    (h : (Record.release version date).Valid) :
    release? (Record.release version date).line =
      if stripSign '+' version = [] then none else some (stripSign '+' version, date) := by
  have hfirst : Trimmed ('+' :: ' ' :: version) :=
    Text.trimmed_append (a := ['+', ' ']) (by simp; decide) h.trimmed.last nofun h.ne_nil
  have hitems : Text.itemsAt ';' (Record.release version date).line =
      ['+' :: ' ' :: version, date.text] := by
    have hv : ';' ∉ '+' :: ' ' :: version := by simpa using (h.version rfl).1
    rw [Record.line, Text.itemsAt_append, Text.itemsAt_of_not_mem hv,
      Text.itemsAt_of_not_mem (date.not_mem_text (by decide)), Text.kept_of_trimmed hfirst nofun,
      Text.kept_of_trimmed date.trimmed_text date.text_ne_nil]
    rfl
  have hlen : (stripSign '+' version).length ≤ maxVersionLength :=
    (length_stripSign_le _ _).trans (h.version rfl).2
  split
  · rename_i he
    refine Option.eq_none_iff_forall_not_mem.mpr fun p hp => ?_
    obtain ⟨-, first, rest, last, hi, -, hv, hne, -⟩ := release?_eq_some_iff.mp hp
    obtain ⟨rfl, -⟩ := List.cons.inj (hitems.symm.trans hi)
    rw [stripSign_cons, he] at hv
    exact hne hv
  · rename_i hne
    rw [release?_eq_some_iff]
    exact ⟨hasSign_cons (by decide) _, _, [], _, hitems, date.ofText?_text,
      (stripSign_cons _ _).symm, hne, hlen⟩

theorem step_line_change {st : State} {t : Text} (h : (Record.change t).Valid)
    (hst : st ≠ .outside) :
    step st (Record.change t).line = (st.pending, .change (stripSign '-' t)) := by
  have ht := h.trimmed_line.trim_eq
  have hs : hasSign '-' (trim (Record.change t).line) = true := by
    rw [ht]
    exact hasSign_cons (by decide) t
  rw [step_change hs hst, ht, Record.line, stripSign_cons]

/-- A settled record comes back. -/
theorem step_line_of_settled {r : Record} (h : r.Valid) (hs : r.Settled) {st : State}
    (hst : st = .outside → r.isRelease = true) :
    (step st r.line).1 ++ (step st r.line).2.pending = st.pending ++ [r] ∧
      (step st r.line).2 ≠ .outside := by
  have ht := h.trimmed_line.trim_eq
  have hstrip := stripSign_of_head h.trimmed hs
  have hne := h.ne_nil
  cases r with
  | release version date =>
    simp only [Record.sign, Record.text] at hstrip hne
    have hr := release?_line h
    rw [if_neg (by rwa [hstrip]), hstrip] at hr
    rw [step_release (by rw [ht]; exact hr)]
    simp [State.pending]
  | change t =>
    simp only [Record.sign, Record.text] at hstrip hne
    rw [step_line_change h fun he => Bool.false_ne_true (hst he), hstrip]
    simp [State.pending, hne]

/-! ## All records read again -/

theorem readFrom_blank (st : State) (ls : List Text) :
    readFrom st ([] :: ls) = st.pending ++ readFrom st.afterBlank ls := by
  rw [readFrom, step_blank rfl]

theorem readFrom_linesAfter_of_settled {rs : List Record} (hv : ∀ r ∈ rs, r.Valid)
    (hs : ∀ r ∈ rs, r.Settled) (begun : Bool) {st : State}
    (hst : st = .outside → ∀ r ∈ rs.head?, r.isRelease = true) :
    readFrom st (linesAfter begun rs) = st.pending ++ rs := by
  induction rs generalizing begun st with
  | nil => simp [linesAfter, readFrom]
  | cons r rs ih =>
    obtain ⟨hr, hrs⟩ := List.forall_mem_cons.mp hv
    obtain ⟨hsr, hsrs⟩ := List.forall_mem_cons.mp hs
    have hline : ∀ st : State, (st = .outside → r.isRelease = true) →
        readFrom st (r.line :: linesAfter true rs) = st.pending ++ r :: rs := by
      intro st hst
      obtain ⟨hout, hne⟩ := step_line_of_settled hr hsr hst
      rw [readFrom, ih hrs hsrs true fun he => absurd he hne, ← List.append_assoc, hout]
      simp
    have hst := fun he => hst he r rfl
    rw [linesAfter]
    cases begun && r.isRelease with
    | false => exact hline st hst
    | true =>
      rw [if_pos rfl, List.singleton_append, readFrom_blank, hline]
      · cases st <;> simp [State.afterBlank, State.pending]
      · intro he
        apply hst
        cases st with
        | outside => rfl
        | inside => cases he
        | change t => cases he

/-! ## Weights -/

/-- The characters of the texts, and one for each. -/
def weight (rs : List Record) : Nat := Text.total (fun t => t.length + 1) (rs.map Record.text)

@[simp] theorem weight_nil : weight [] = 0 := rfl

@[simp] theorem weight_cons (r : Record) (rs : List Record) :
    weight (r :: rs) = r.text.length + 1 + weight rs := rfl

@[simp] theorem weight_append (rs ss : List Record) :
    weight (rs ++ ss) = weight rs + weight ss := by
  rw [weight, List.map_append, Text.total_append]
  rfl

/-- The number of records that do not come back. -/
def unsettled (rs : List Record) : Nat := rs.countP fun r => !decide r.Settled

theorem unsettled_eq_zero_iff {rs : List Record} : unsettled rs = 0 ↔ ∀ r ∈ rs, r.Settled := by
  simp [unsettled, List.countP_eq_zero]

theorem unsettled_cons (r : Record) (rs : List Record) :
    unsettled (r :: rs) = unsettled rs + unsettled [r] := by
  simp [unsettled, List.countP_cons]

theorem unsettled_le_one (r : Record) : unsettled [r] ≤ 1 := List.countP_le_length

theorem length_stripSign_add_unsettled (r : Record) :
    (stripSign r.sign r.text).length + unsettled [r] ≤ r.text.length := by
  by_cases hs : r.Settled
  · rw [unsettled_eq_zero_iff.mpr (by simpa using hs)]
    exact length_stripSign_le _ _
  · have := length_stripSign_lt (Classical.not_not.mp hs)
    have := unsettled_le_one r
    omega

theorem weight_pending_change_le (t : Text) : weight (State.change t).pending ≤ t.length + 1 := by
  rw [State.pending]
  split <;> simp [Record.text]

/-- The line of a record adds no more than the record, and less if the record is unsettled. In front
of a release stands no change that could run on over it. -/
theorem weight_step_line_le {r : Record} (h : r.Valid) {st : State}
    (hst : r.isRelease = true → ∀ t, st ≠ .change t) :
    weight (step st r.line).1 + weight (step st r.line).2.pending + unsettled [r] ≤
      weight st.pending + weight [r] := by
  have hstrip := length_stripSign_add_unsettled r
  have hone := unsettled_le_one r
  have ht := h.trimmed_line.trim_eq
  cases r with
  | release version date =>
    have hr := release?_line h
    simp only [Record.sign, Record.text] at hstrip
    by_cases hne : stripSign '+' version = []
    · rw [if_pos hne] at hr
      cases st with
      | outside =>
        rw [step_outside (by rw [ht]; exact hr)]
        simp [State.pending]
        omega
      | inside =>
        have hs : hasSign '-' (Record.release version date).line = false := rfl
        rw [← ht] at hr hs
        rw [step_closing (by rw [ht]; exact List.cons_ne_nil _ _) hr hs]
        simp [State.pending]
        omega
      | change t => exact absurd rfl (hst rfl t)
    · rw [if_neg hne] at hr
      rw [step_release (by rw [ht]; exact hr)]
      simp [State.pending, Record.text]
      omega
  | change t =>
    simp only [Record.sign, Record.text] at hstrip
    by_cases ho : st = .outside
    · have hr := release?_of_hasSign (hasSign_cons (by decide) t)
      rw [ho, step_outside (by rw [ht]; exact hr)]
      simp [State.pending]
      omega
    · have := weight_pending_change_le (stripSign '-' t)
      rw [step_line_change h ho]
      simp [Record.text]
      omega

theorem weight_readFrom_linesAfter_le {rs : List Record} (hv : ∀ r ∈ rs, r.Valid) (begun : Bool)
    (st : State) (hst : begun = false → ∀ t, st ≠ .change t) :
    weight (readFrom st (linesAfter begun rs)) + unsettled rs ≤ weight st.pending + weight rs := by
  induction rs generalizing begun st with
  | nil => simp [linesAfter, readFrom, unsettled]
  | cons r rs ih =>
    obtain ⟨hr, hrs⟩ := List.forall_mem_cons.mp hv
    have hline : ∀ st : State, (r.isRelease = true → ∀ t, st ≠ .change t) →
        weight (readFrom st (r.line :: linesAfter true rs)) + unsettled (r :: rs) ≤
          weight st.pending + weight (r :: rs) := by
      intro st hst
      have hstep := weight_step_line_le hr hst
      have hrest := ih hrs true (step st r.line).2 fun he => absurd he (by decide)
      rw [readFrom, unsettled_cons]
      simp only [weight_append, weight_cons, weight_nil] at hstep ⊢
      omega
    rw [linesAfter]
    cases hb : begun && r.isRelease with
    | false =>
      refine hline st fun he => hst ?_
      simpa [he] using hb
    | true =>
      have hblank := hline st.afterBlank fun _ t he => by cases st <;> cases he
      have hp : weight st.afterBlank.pending = 0 := by cases st <;> rfl
      rw [if_pos rfl, List.singleton_append, readFrom_blank, weight_append]
      omega

/-! ## The round trip -/

/-- The plain text of what was read from a text reads back as the same history exactly if no version
starts with a plus sign and no change with a minus sign. -/
theorem plain_reads_back_iff_settled (t : Text) :
    ofText (ofText t).plain = ofText t ↔ ∀ r ∈ (ofText t).records, r.Settled := by
  have hv : ∀ r ∈ (ofText t).records, r.Valid := fun r => valid_of_mem_ofLines
  have hplain := ofText_plain fun r hr => ⟨hv r hr, feedless_of_mem_ofText hr⟩
  constructor
  · intro he
    have hw := weight_readFrom_linesAfter_le hv false .outside nofun
    rw [hplain] at he
    have : readFrom .outside (linesAfter false (ofText t).records) = (ofText t).records :=
      congrArg History.records he
    rw [this] at hw
    refine unsettled_eq_zero_iff.mp ?_
    simp only [State.pending, weight_nil] at hw
    omega
  · intro hs
    rw [hplain, ofLines, readFrom_linesAfter_of_settled hv hs false fun _ r hr =>
      isRelease_of_head_ofLines hr]
    rfl

/-- A tab between two signs keeps the second from being taken off in the first reading. -/
theorem plain_loses_second_sign :
    ofText (ofText "+ 1.0;2024-01-01\n-\t- a\n".toList).plain ≠
      ofText "+ 1.0;2024-01-01\n-\t- a\n".toList := by
  decide +kernel

end History

end Packaging
