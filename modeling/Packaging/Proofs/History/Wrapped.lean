import Packaging.Proofs.History.Sections

/-! Changes that run over several lines. A line that is neither blank nor a release nor marked as a
change only adds its text to a change that runs on, and where that change has a text already, the
lines give what one line of all their texts gives. So it does not matter where a change is broken
into lines, whatever stands before it and behind it. -/

namespace Packaging.History

open Text (trim Trimmed)

/-! ## Open releases -/

/-- A change can stand behind the lines: the release that was read last is still open. -/
def Open (ls : List Text) : Prop := (run .outside ls).2 ≠ .outside

instance : DecidablePred Open := fun _ => inferInstanceAs (Decidable (_ ≠ _))

theorem state_run_cons (st : State) (l : Text) (ls : List Text) :
    (run st (l :: ls)).2 = (run (step st l).2 ls).2 := rfl

theorem state_run_append (st : State) (ls ms : List Text) :
    (run st (ls ++ ms)).2 = (run (run st ls).2 ms).2 := by
  induction ls generalizing st with
  | nil => rfl
  | cons l ls ih => exact ih (step st l).2

theorem run_changes_ne_outside {st : State} (hst : st ≠ .outside) {ls : List Text}
    (h : ∀ l ∈ ls, hasSign '-' (trim l) = true) : (run st ls).2 ≠ .outside := by
  induction ls generalizing st with
  | nil => exact hst
  | cons l ls ih =>
    obtain ⟨hl, hls⟩ := List.forall_mem_cons.mp h
    rw [state_run_cons, step_change hl hst]
    exact ih nofun hls

/-- A release is open behind its own line, and stays so through changes. -/
theorem open_of_changes (front : List Text) {l : Text} (hl : Starts l) {changes : List Text}
    (h : ∀ c ∈ changes, hasSign '-' (trim c) = true) : Open (front ++ l :: changes) := by
  obtain ⟨version, date, hr⟩ := starts_iff.mp hl
  have hinside : State.inside ≠ .outside := nofun
  rw [Open, state_run_append, state_run_cons, step_release hr]
  exact run_changes_ne_outside hinside h

/-! ## Texts put together -/

/-- The texts of a line and of those behind it, as one line. -/
def joined (l : Text) (more : List Text) : Text := List.intercalate [' '] ((l :: more).map trim)

/-- What the texts of lines add to one before them. -/
def added (more : List Text) : Text := more.flatMap fun l => ' ' :: trim l

theorem joined_eq (l : Text) (more : List Text) : joined l more = trim l ++ added more := by
  rw [joined, List.map_cons, Text.intercalate_cons_eq_flatMap, List.flatMap_map]
  rfl

/-- Nothing blank is added last. -/
theorem last_added {more : List Text} (h : ∀ l ∈ more, Strays l) :
    ∀ c ∈ (added more).getLast?, Text.isBlank c = false := by
  rcases List.eq_nil_or_concat more with rfl | ⟨init, l, rfl⟩
  · nofun
  · have hne := (h l (by simp)).ne_blank
    rw [List.concat_eq_append, added, List.flatMap_append, List.flatMap_singleton,
      List.getLast?_append_of_ne_nil _ (List.cons_ne_nil _ _), List.getLast?_cons_of_ne_nil hne]
    exact (Text.trimmed_trim l).last

theorem run_added {t : Text} (ht : t ≠ []) {more : List Text} (h : ∀ l ∈ more, Strays l) :
    run (.change t) more = ([], .change (t ++ added more)) := by
  induction more generalizing t with
  | nil => rw [run, added, List.flatMap_nil, List.append_nil]
  | cons l more ih =>
    obtain ⟨hl, hmore⟩ := List.forall_mem_cons.mp h
    have hrunOn : runOn t (trim l) = t ++ ' ' :: trim l := if_neg (by simpa using ht)
    rw [run, step_runsOn hl.ne_blank (release?_of_not_starts hl.not_starts) hl.unmarked, hrunOn,
      ih (by simp) hmore, added, added, List.flatMap_cons, List.append_assoc]
    rfl

/-! ## Signs in front of more text -/

theorem hasSign_append {sign : Char} {t : Text} (h : hasSign sign t = true)
    (hne : stripSign sign t ≠ []) (u : Text) : hasSign sign (t ++ u) = true := by
  match t with
  | [] => cases h
  | [c] =>
    -- A sign alone leaves no text, and what follows could start with another one.
    obtain ⟨rfl, -⟩ : sign = c ∧ _ := by simpa [hasSign] using h
    exact absurd (by simp [stripSign, Text.trim, Text.trimStart, Text.trimEnd]) hne
  | c :: d :: r => simpa [hasSign, List.isPrefixOf] using h

theorem stripSign_append {sign : Char} {t u : Text} (ht : Trimmed t) (hne : stripSign sign t ≠ [])
    (hu : ∀ c ∈ u.getLast?, Text.isBlank c = false) :
    stripSign sign (t ++ u) = stripSign sign t ++ u := by
  have hdrop : t.dropWhile (fun c => c == sign || c == ' ') ≠ [] := by
    intro he
    rw [stripSign, he] at hne
    exact hne rfl
  have hlast : ∀ c ∈ (t.dropWhile fun c => c == sign || c == ' ').getLast?,
      Text.isBlank c = false := by
    have := ht.last
    rwa [← List.takeWhile_append_dropWhile (p := fun c => c == sign || c == ' ') (l := t),
      List.getLast?_append_of_ne_nil _ hdrop] at this
  rw [stripSign, List.dropWhile_append, if_neg (by simpa using hdrop)]
  exact Text.trim_append_of_last hne hlast hu

/-! ## Wrapped changes -/

/-- A change with text is read with the lines behind it as their texts on one line are. -/
theorem readFrom_joined {st : State} (hst : st ≠ .outside) {d : Text}
    (hd : hasSign '-' (trim d) = true) (hne : stripSign '-' (trim d) ≠ []) {more : List Text}
    (hmore : ∀ l ∈ more, Strays l) (rest : List Text) :
    readFrom st (d :: more ++ rest) = readFrom st (joined d more :: rest) := by
  have hlast := last_added hmore
  have htrim : trim (joined d more) = joined d more := by
    rw [joined_eq, Text.trim_append_of_last (by simpa using ne_nil_of_hasSign hd)
      (Text.trimmed_trim d).last hlast, Text.trim_trim]
  have hsign : hasSign '-' (trim (joined d more)) = true := by
    rw [htrim, joined_eq]
    exact hasSign_append hd hne _
  have hstrip : stripSign '-' (trim (joined d more)) = stripSign '-' (trim d) ++ added more := by
    rw [htrim, joined_eq]
    exact stripSign_append (Text.trimmed_trim d) hne hlast
  rw [List.cons_append, readFrom, step_change hd hst, readFrom_append, run_added hne hmore,
    List.nil_append, readFrom, step_change hsign hst, hstrip]

/-- Behind an open release, as it is behind a release line and changes, a change with text that runs
on over other lines is read as all their texts on one line are, whatever follows. -/
theorem wrapped_reads_as_joined :
    (∀ front l changes, Starts l → (∀ c ∈ changes, hasSign '-' (trim c) = true) →
      Open (front ++ l :: changes)) ∧
    ∀ a d more, Open a → hasSign '-' (trim d) = true → stripSign '-' (trim d) ≠ [] →
      (∀ l ∈ more, Strays l) →
      ∀ rest, ofLines (a ++ (d :: more) ++ rest) = ofLines (a ++ joined d more :: rest) := by
  refine ⟨fun front _ _ hl hchanges => open_of_changes front hl hchanges, ?_⟩
  intro a d more ha hd hne hmore rest
  rw [ofLines, ofLines, List.append_assoc, readFrom_append .outside a,
    readFrom_append .outside a, readFrom_joined ha hd hne hmore]

/-- Neither a second sign nor a release without a date keeps a line from running on. -/
theorem wrapped_reads_as_joined_oddLines :
    Starts "+ 1.0;2024-01-01".toList ∧ Open ["+ 1.0;2024-01-01".toList, "- first".toList] ∧
    hasSign '-' (trim " -\tnew".toList) = true ∧ stripSign '-' (trim " -\tnew".toList) ≠ [] ∧
    (∀ l ∈ ["  -- flag ".toList, "+ 2.0;soon".toList], Strays l) ∧
    joined " -\tnew".toList ["  -- flag ".toList, "+ 2.0;soon".toList] =
      "-\tnew -- flag + 2.0;soon".toList ∧
    ofLines (["+ 1.0;2024-01-01".toList, "- first".toList] ++
        (" -\tnew".toList :: ["  -- flag ".toList, "+ 2.0;soon".toList]) ++ ["more".toList]) =
      ofLines (["+ 1.0;2024-01-01".toList, "- first".toList] ++
        "-\tnew -- flag + 2.0;soon".toList :: ["more".toList]) := by
  obtain ⟨hopen, hread⟩ := wrapped_reads_as_joined
  have hs : Starts "+ 1.0;2024-01-01".toList := by decide +kernel
  have ho := hopen [] _ ["- first".toList] hs (by decide)
  have hd : hasSign '-' (trim " -\tnew".toList) = true := by decide
  have hne : stripSign '-' (trim " -\tnew".toList) ≠ [] := by decide
  have hmore : ∀ l ∈ ["  -- flag ".toList, "+ 2.0;soon".toList], Strays l :=
    List.forall_mem_cons.mpr ⟨⟨by decide, by decide, by decide⟩,
      List.forall_mem_singleton.mpr ⟨by decide, by decide +kernel, by decide⟩⟩
  have hj : joined " -\tnew".toList ["  -- flag ".toList, "+ 2.0;soon".toList] =
      "-\tnew -- flag + 2.0;soon".toList := by decide
  refine ⟨hs, ho, hd, hne, hmore, hj, ?_⟩
  rw [← hj]
  exact hread _ _ _ ho hd hne hmore _

/-- A sign without a text takes the signs of the next line with it, once the two are joined. -/
example :
    ofLines ["+ 1.0;2024-01-01".toList, "-".toList, "-- flag".toList] ≠
      ofLines ["+ 1.0;2024-01-01".toList, joined "-".toList ["-- flag".toList]] := by
  decide +kernel

end Packaging.History
