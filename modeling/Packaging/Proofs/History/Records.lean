import Packaging.History.Read
import Packaging.Proofs.Calendar.Written
import Packaging.Proofs.Text.Items

/-! What reading a history gives. One line makes one of six moves; a move keeps the change that may
run on trimmed, and the records it gives are in order: no text is empty or has blanks at its ends,
versions hold no semicolon and are short enough, and no record stands before the first release. -/

namespace Packaging

namespace Record

/-- What a record says, but for the date. -/
def text : Record → Text
  | .release version _ => version
  | .change t => t

@[simp] theorem text_release (version : Text) (date : Calendar.Date) :
    (release version date).text = version := rfl

@[simp] theorem text_change (t : Text) : (change t).text = t := rfl

/-- What reading can give. -/
structure Valid (r : Record) : Prop where
  trimmed : Text.Trimmed r.text
  ne_nil : r.text ≠ []
  version : r.isRelease = true → ';' ∉ r.text ∧ r.text.length ≤ 25

theorem valid_change {t : Text} (h : Text.Trimmed t) (hne : t ≠ []) : (change t).Valid :=
  ⟨h, hne, nofun⟩

end Record

namespace History

open Text (trim Trimmed)

/-! ## Signs -/

theorem trimmed_stripSign (sign : Char) (t : Text) : Trimmed (stripSign sign t) :=
  Text.trimmed_trim _

theorem mem_of_mem_stripSign {sign c : Char} {t : Text} (h : c ∈ stripSign sign t) : c ∈ t :=
  (List.dropWhile_sublist _).subset (Text.mem_of_mem_trim h)

theorem hasSign_iff {sign : Char} {line : Text} :
    hasSign sign line = true ↔ [sign] <+: line ∧ ¬[sign, sign] <+: line := by
  rw [hasSign, Bool.and_eq_true, Bool.not_eq_true', ← Bool.not_eq_true,
    List.isPrefixOf_iff_prefix, List.isPrefixOf_iff_prefix]

theorem ne_nil_of_hasSign {sign : Char} {line : Text} (h : hasSign sign line = true) :
    line ≠ [] := by
  rintro rfl
  cases h

theorem hasSign_unique {a b : Char} {line : Text} (ha : hasSign a line = true)
    (hb : hasSign b line = true) : a = b := by
  obtain ⟨_, rfl⟩ := (hasSign_iff.mp ha).1
  have := (hasSign_iff.mp hb).1
  simpa [eq_comm] using this

/-! ## Release lines -/

theorem release?_eq_some_iff {line version : Text} {date : Calendar.Date} :
    release? line = some (version, date) ↔ hasSign '+' line = true ∧
      ∃ first rest last, Text.itemsAt ';' line = first :: (rest ++ [last]) ∧
        Calendar.Date.ofText? last = some date ∧ version = stripSign '+' first ∧
        version ≠ [] ∧ version.length ≤ maxVersionLength := by
  unfold release?
  rw [← Text.itemsAt]
  by_cases hs : hasSign '+' line = true
  · rw [if_neg (by simp [hs])]
    simp only [hs, true_and]
    split
    · rename_i first second rest hi
      obtain ⟨init, last, hl⟩ := (List.eq_nil_or_concat (second :: rest)).resolve_left
        (List.cons_ne_nil _ _)
      have hlast : ∀ h, (second :: rest).getLast h = last := by simp [hl]
      rw [hlast, hi, hl, List.concat_eq_append]
      constructor
      · intro h
        split at h
        · cases h
        · rename_i date' hd
          split at h
          · cases h
          · rename_i hv
            obtain ⟨rfl, rfl⟩ := Prod.mk.inj (Option.some.inj h)
            simp only [Bool.or_eq_true, not_or, List.isEmpty_iff, decide_eq_true_eq, not_lt] at hv
            exact ⟨first, init, last, rfl, hd, rfl, hv⟩
      · rintro ⟨f, r, l, hf, hd, rfl, hne, hlen⟩
        obtain ⟨rfl, he⟩ := List.cons.inj hf
        obtain ⟨-, he⟩ := List.append_inj' he rfl
        obtain rfl := List.singleton_inj.mp he
        simp [hd, hne, hlen]
    · rename_i hi
      constructor
      · intro h
        cases h
      · rintro ⟨f, r, l, hf, -⟩
        cases r with
        | nil => exact absurd hf (hi f l [])
        | cons s r => exact absurd hf (hi f s (r ++ [l]))
  · rw [if_pos (by simpa using hs)]
    simp [hs]

theorem release?_eq_none_of_not_hasSign {line : Text} (h : hasSign '+' line = false) :
    release? line = none := by
  simp [release?, h]

/-- A line that is marked as a change is no release. -/
theorem release?_of_hasSign {line : Text} (h : hasSign '-' line = true) : release? line = none := by
  refine release?_eq_none_of_not_hasSign (Bool.eq_false_iff.mpr fun hp => ?_)
  have := hasSign_unique h hp
  cases this

theorem mem_of_release? {line version : Text} {date : Calendar.Date} {c : Char}
    (h : release? line = some (version, date)) (hc : c ∈ version) : c ≠ ';' ∧ c ∈ line := by
  obtain ⟨-, first, rest, last, hi, -, rfl, -⟩ := release?_eq_some_iff.mp h
  have hf : first ∈ Text.itemsAt ';' line := by simp [hi]
  simp only [Text.itemsAt, List.mem_filter, List.mem_map] at hf
  obtain ⟨⟨w, hw, rfl⟩, -⟩ := hf
  have hcw := Text.mem_of_mem_trim (mem_of_mem_stripSign hc)
  refine ⟨?_, Text.mem_of_mem_cutAt hw hcw⟩
  rintro rfl
  exact Text.not_mem_of_mem_cutAt hw hcw

theorem valid_of_release? {line version : Text} {date : Calendar.Date}
    (h : release? line = some (version, date)) : (Record.release version date).Valid := by
  obtain ⟨-, first, -, -, -, -, hv, hne, hlen⟩ := release?_eq_some_iff.mp h
  refine ⟨?_, hne, fun _ => ⟨fun hc => (mem_of_release? h hc).1 rfl, hlen⟩⟩
  rw [Record.text, hv]
  exact trimmed_stripSign '+' first

/-! ## Moves -/

/-- What a line gives, and where it leaves the reading. -/
inductive Moves (line : Text) : State → List Record → State → Prop
  | blank {st} : trim line = [] → Moves line st st.pending st.afterBlank
  | release {st version date} : release? (trim line) = some (version, date) →
      Moves line st (st.pending ++ [.release version date]) .inside
  | change {st} : hasSign '-' (trim line) = true → st ≠ .outside →
      Moves line st st.pending (.change (stripSign '-' (trim line)))
  | skipped : Moves line .outside [] .outside
  | closing : Moves line .inside [] .outside
  | runsOn {t} : trim line ≠ [] → Moves line (.change t) [] (.change (runOn t (trim line)))

section

variable {st : State} {line : Text}

theorem step_blank (h : trim line = []) : step st line = (st.pending, st.afterBlank) := by
  simp [step, h]

theorem step_release {version : Text} {date : Calendar.Date}
    (h : release? (trim line) = some (version, date)) :
    step st line = (st.pending ++ [.release version date], .inside) := by
  have hne := ne_nil_of_hasSign (release?_eq_some_iff.mp h).1
  simp [step, hne, h]

theorem step_outside (h : release? (trim line) = none) : step .outside line = ([], .outside) := by
  by_cases hne : trim line = []
  · exact step_blank hne
  · simp [step, hne, h]

theorem step_change (h : hasSign '-' (trim line) = true) (hst : st ≠ .outside) :
    step st line = (st.pending, .change (stripSign '-' (trim line))) := by
  have hne := ne_nil_of_hasSign h
  have hr := release?_of_hasSign h
  cases st with
  | outside => exact absurd rfl hst
  | inside => simp [step, hne, hr, h, State.pending]
  | change t => simp [step, hne, hr, h]

theorem step_closing (hne : trim line ≠ []) (hr : release? (trim line) = none)
    (h : hasSign '-' (trim line) = false) : step .inside line = ([], .outside) := by
  simp [step, hne, hr, h]

theorem step_runsOn {t : Text} (hne : trim line ≠ []) (hr : release? (trim line) = none)
    (h : hasSign '-' (trim line) = false) :
    step (.change t) line = ([], .change (runOn t (trim line))) := by
  simp [step, hne, hr, h]

theorem moves_step (st : State) (line : Text) :
    Moves line st (step st line).1 (step st line).2 := by
  by_cases hb : trim line = []
  · rw [step_blank hb]
    exact .blank hb
  cases hr : release? (trim line) with
  | some p =>
    rw [step_release hr]
    exact .release hr
  | none =>
    cases hs : hasSign '-' (trim line) with
    | true =>
      by_cases hst : st = .outside
      · rw [hst, step_outside hr]
        exact .skipped
      · rw [step_change hs hst]
        exact .change hs hst
    | false =>
      cases st with
      | outside =>
        rw [step_outside hr]
        exact .skipped
      | inside =>
        rw [step_closing hb hr hs]
        exact .closing
      | change t =>
        rw [step_runsOn hb hr hs]
        exact .runsOn hb

end

/-! ## What a run keeps -/

/-- On lines with `L`, every move keeps `Q` of a change that may run on, and gives records with
`R`. -/
structure Keeps (L Q : Text → Prop) (R : Record → Prop) : Prop where
  pending {t : Text} : Q t → t ≠ [] → R (.change t)
  release {line version : Text} {date : Calendar.Date} : L line →
    release? (trim line) = some (version, date) → R (.release version date)
  change {line : Text} : L line → Q (stripSign '-' (trim line))
  runsOn {t line : Text} : L line → Q t → trim line ≠ [] → Q (runOn t (trim line))

namespace Keeps

variable {L Q : Text → Prop} {R : Record → Prop} {st : State}

theorem of_mem_pending (hk : Keeps L Q R) (hst : ∀ t, st = .change t → Q t) :
    ∀ r ∈ st.pending, R r := by
  intro r hr
  cases st with
  | outside => cases hr
  | inside => cases hr
  | change t =>
    simp only [State.pending] at hr
    split at hr
    · cases hr
    · rename_i hne
      rw [List.mem_singleton.mp hr]
      exact hk.pending (hst t rfl) (by simpa using hne)

theorem of_step (hk : Keeps L Q R) (hst : ∀ t, st = .change t → Q t) {line : Text} (hl : L line) :
    (∀ r ∈ (step st line).1, R r) ∧ ∀ t, (step st line).2 = .change t → Q t := by
  have hpending := hk.of_mem_pending hst
  have hm := moves_step st line
  generalize (step st line).1 = out, (step st line).2 = st' at hm ⊢
  cases hm with
  | blank =>
    exact ⟨hpending, by cases st <;> simp [State.afterBlank]⟩
  | release hr =>
    have := hk.release hl hr
    refine ⟨fun r hmem => ?_, by simp⟩
    rcases List.mem_append.mp hmem with hmem | hmem
    · exact hpending r hmem
    · rwa [List.mem_singleton.mp hmem]
  | change =>
    exact ⟨hpending, by simpa using hk.change hl⟩
  | skipped => simp
  | closing => simp
  | runsOn hne =>
    simpa using hk.runsOn hl (hst _ rfl) hne

theorem of_mem_readFrom (hk : Keeps L Q R) (st : State) (hst : ∀ t, st = .change t → Q t)
    {ls : List Text} (hl : ∀ l ∈ ls, L l) : ∀ r ∈ readFrom st ls, R r := by
  induction ls generalizing st with
  | nil => exact hk.of_mem_pending hst
  | cons l ls ih =>
    obtain ⟨hout, hst'⟩ := hk.of_step hst (hl l (List.mem_cons_self ..))
    intro r hr
    rcases List.mem_append.mp hr with hr | hr
    · exact hout r hr
    · exact ih _ hst' (fun m hm => hl m (List.mem_cons_of_mem _ hm)) r hr

theorem of_mem_ofLines (hk : Keeps L Q R) {ls : List Text} (hl : ∀ l ∈ ls, L l) :
    ∀ r ∈ (ofLines ls).records, R r :=
  hk.of_mem_readFrom .outside nofun hl

end Keeps

theorem trimmed_runOn {t line : Text} (ht : Trimmed t) (hl : Trimmed line) (hne : line ≠ []) :
    Trimmed (runOn t line) := by
  unfold runOn
  split
  · exact hl
  · rename_i h
    refine Text.trimmed_append ht.head ?_ (by simpa using h) (List.cons_ne_nil ' ' line)
    rw [List.getLast?_cons_of_ne_nil hne]
    exact hl.last

theorem mem_runOn {t line : Text} {c : Char} (h : c ∈ runOn t line) :
    c ∈ t ∨ c = ' ' ∨ c ∈ line := by
  unfold runOn at h
  split at h
  · exact .inr (.inr h)
  · simpa using h

theorem keeps_valid : Keeps (fun _ => True) Trimmed Record.Valid where
  pending := Record.valid_change
  release _ := valid_of_release?
  change _ := trimmed_stripSign _ _
  runsOn _ ht hne := trimmed_runOn ht (Text.trimmed_trim _) hne

/-- What holds of the space and of all characters of the lines holds of all that is read. -/
theorem keeps_chars {P : Char → Prop} (hspace : P ' ') :
    Keeps (fun l => ∀ c ∈ l, P c) (fun t => ∀ c ∈ t, P c) (fun r => ∀ c ∈ r.text, P c) where
  pending h _ := h
  release hl h c hc := hl c (Text.mem_of_mem_trim (mem_of_release? h hc).2)
  change hl c hc := hl c (Text.mem_of_mem_trim (mem_of_mem_stripSign hc))
  runsOn hl ht _ c hc := by
    rcases mem_runOn hc with hc | rfl | hc
    · exact ht c hc
    · exact hspace
    · exact hl c (Text.mem_of_mem_trim hc)

theorem valid_of_mem_ofLines {ls : List Text} {r : Record} (h : r ∈ (ofLines ls).records) :
    r.Valid :=
  keeps_valid.of_mem_ofLines (fun _ _ => trivial) r h

theorem feedless_of_mem_ofText {t : Text} {r : Record} (h : r ∈ (ofText t).records) :
    '\n' ∉ r.text := by
  intro hn
  refine (keeps_chars (P := (· ≠ '\n')) (by decide)).of_mem_ofLines ?_ r h '\n' hn rfl
  rintro l hl c hc rfl
  exact Text.feedless_of_mem_lines hl hc

/-- Nothing is read before the first release. -/
theorem isRelease_of_head_ofLines {ls : List Text} {r : Record}
    (h : r ∈ (ofLines ls).records.head?) : r.isRelease = true := by
  change r ∈ (readFrom .outside ls).head? at h
  induction ls with
  | nil => cases h
  | cons l ls ih =>
    rw [readFrom] at h
    cases hr : release? (trim l) with
    | none =>
      rw [step_outside hr] at h
      exact ih h
    | some p =>
      rw [step_release hr] at h
      obtain rfl := Option.some.inj h
      rfl

end History

end Packaging
