import Packaging.Proofs.History.Records

/-! The sections of a history. A release gives out the change that may still run on and starts anew,
whatever was read before it. Behind a blank line nothing runs on, so a line that is neither a
release nor a change closes the section, and nothing is read up to the next release. So each section
is read by itself. -/

namespace Packaging.History

open Text (trim)

/-- The line starts a section. -/
def Starts (line : Text) : Prop := (release? (trim line)).isSome = true

instance : DecidablePred Starts := fun _ => inferInstanceAs (Decidable (_ = true))

/-- The line has something on it, but neither a release nor a change. -/
structure Strays (line : Text) : Prop where
  ne_blank : trim line ≠ []
  not_starts : ¬Starts line
  unmarked : hasSign '-' (trim line) = false

theorem starts_iff {line : Text} :
    Starts line ↔ ∃ version date, release? (trim line) = some (version, date) := by
  rw [Starts, Option.isSome_iff_exists, Prod.exists]

theorem release?_of_not_starts {line : Text} (h : ¬Starts line) : release? (trim line) = none := by
  simpa [Starts] using h

/-! ## Runs -/

/-- The records that the lines give while they are read, and where they leave the reading. -/
def run (st : State) : List Text → List Record × State
  | [] => ([], st)
  | l :: ls => ((step st l).1 ++ (run (step st l).2 ls).1, (run (step st l).2 ls).2)

theorem readFrom_append (st : State) (ls ms : List Text) :
    readFrom st (ls ++ ms) = (run st ls).1 ++ readFrom (run st ls).2 ms := by
  induction ls generalizing st with
  | nil => rfl
  | cons l ls ih => rw [List.cons_append, readFrom, ih, run, List.append_assoc]

theorem readFrom_eq (st : State) (ls : List Text) :
    readFrom st ls = (run st ls).1 ++ (run st ls).2.pending := by
  have h := readFrom_append st ls []
  rwa [List.append_nil] at h

/-- What gives from everywhere the change before it, and then what other lines give from outside,
stands for those lines behind all others. -/
theorem readFrom_append_of_pending {ms ks : List Text}
    (h : ∀ st : State, readFrom st ms = st.pending ++ readFrom .outside ks) (ls : List Text) :
    readFrom .outside (ls ++ ms) = readFrom .outside ls ++ readFrom .outside ks := by
  rw [readFrom_append, h, readFrom_eq .outside ls, List.append_assoc]

/-- A section is read alike from everywhere, once the change before it is over. -/
theorem readFrom_starts {l : Text} (h : Starts l) (st : State) (ls : List Text) :
    readFrom st (l :: ls) = st.pending ++ readFrom .outside (l :: ls) := by
  obtain ⟨version, date, hr⟩ := starts_iff.mp h
  simp only [readFrom, step_release hr, State.pending, List.nil_append, List.append_assoc]

/-- Outside of all sections lines that start none give nothing, and lead nowhere. -/
theorem readFrom_outside {ls : List Text} (h : ∀ l ∈ ls, ¬Starts l) (ms : List Text) :
    readFrom .outside (ls ++ ms) = readFrom .outside ms := by
  induction ls with
  | nil => rfl
  | cons l ls ih =>
    obtain ⟨hl, hls⟩ := List.forall_mem_cons.mp h
    rw [List.cons_append, readFrom, step_outside (release?_of_not_starts hl)]
    exact ih hls

/-- Nothing runs on behind a blank line, so a stray line leads outside of all sections. -/
theorem readFrom_strays {blank t : Text} (hb : trim blank = []) (ht : Strays t) (st : State)
    (ls : List Text) :
    readFrom st (blank :: t :: ls) = st.pending ++ readFrom .outside ls := by
  have hr := release?_of_not_starts ht.not_starts
  have hstep : step st.afterBlank t = ([], .outside) := by
    cases st with
    | outside => exact step_outside hr
    | inside => exact step_closing ht.ne_blank hr ht.unmarked
    | change _ => exact step_closing ht.ne_blank hr ht.unmarked
  rw [readFrom, step_blank hb, readFrom, hstep, List.nil_append]

/-- Behind a blank line, a stray line hides all that follows it up to the next section. -/
theorem readFrom_hidden {blank t : Text} (hb : trim blank = []) (ht : Strays t) {c : List Text}
    (hc : ∀ l ∈ c, ¬Starts l) (st : State) (ls : List Text) :
    readFrom st (blank :: t :: c ++ ls) = st.pending ++ readFrom .outside ls := by
  rw [List.cons_append, List.cons_append, readFrom_strays hb ht, readFrom_outside hc]

/-! ## Sections -/

/-- Lines that start with a release are read as if nothing stood before them, and what stands before
them as if they did not follow. Behind a blank line, a stray line and all lines behind it that start
no section might as well not be there, whether a section follows or not. -/
theorem sections_isolated (a : List Text) :
    (∀ l b, Starts l →
      (ofLines (a ++ l :: b)).records = (ofLines a).records ++ (ofLines (l :: b)).records) ∧
    (∀ blank t c, trim blank = [] → Strays t → (∀ l ∈ c, ¬Starts l) →
      ofLines (a ++ blank :: t :: c) = ofLines a ∧
      ∀ l b, Starts l → (ofLines (a ++ blank :: t :: c ++ l :: b)).records =
        (ofLines a).records ++ (ofLines (l :: b)).records) := by
  refine ⟨fun l b hl => readFrom_append_of_pending (fun st => readFrom_starts hl st b) a, ?_⟩
  intro blank t c hb ht hc
  have hhidden : ∀ ls, readFrom .outside (a ++ (blank :: t :: c ++ ls)) =
      readFrom .outside a ++ readFrom .outside ls := fun ls =>
    readFrom_append_of_pending (fun st => readFrom_hidden hb ht hc st ls) a
  constructor
  · have h := hhidden []
    rw [List.append_nil, show readFrom .outside [] = [] from rfl, List.append_nil] at h
    rw [ofLines, h, ofLines]
  · intro l b _
    rw [List.append_assoc]
    exact hhidden (l :: b)

/-- A change that still runs on is closed by the blank line, and none of its marks is seen again. -/
theorem sections_isolated_strayProse :
    Starts " +0.9 ; 2023-12-01".toList ∧ trim "\t".toList = [] ∧ Strays "-- prose".toList ∧
    ¬Starts "- unread".toList ∧
    (ofLines (["+ 1.0;2024-01-01".toList, "-".toList, "wrapped".toList] ++
        "\t".toList :: "-- prose".toList :: ["- unread".toList] ++
        " +0.9 ; 2023-12-01".toList :: ["- read".toList])).records =
      (ofLines ["+ 1.0;2024-01-01".toList, "-".toList, "wrapped".toList]).records ++
        (ofLines [" +0.9 ; 2023-12-01".toList, "- read".toList]).records := by
  have hs : Starts " +0.9 ; 2023-12-01".toList := by decide +kernel
  have hb : trim "\t".toList = [] := by decide
  have ht : Strays "-- prose".toList := ⟨by decide, by decide, by decide⟩
  have hc : ¬Starts "- unread".toList := by decide
  refine ⟨hs, hb, ht, hc, ?_⟩
  exact ((sections_isolated _).2 _ _ _ hb ht (by simpa using hc)).2 _ _ hs

end Packaging.History
