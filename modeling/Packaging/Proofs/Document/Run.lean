import Packaging.Proofs.Document.Cut

/-! The reading of a document line by line. Between two lines it stands outside of blocks, inside of
one, or at a fault that ends it; a line moves it on, and scanning lines finds what they leave it
with. So it can be said what a part of a document does, whatever stands before and behind. -/

namespace Packaging.Document

open Text (Before)

/-- Where the reading stands between two lines: in a block, with its key, the number of its first
line and its texts so far, or at the fault that ended the reading. -/
inductive Place where
  | outside
  | inside (key : Text) (line : Nat) (texts : List Text)
  | stopped (e : LineError)

/-- The reading between two lines: the number of the next one, and the entries so far. -/
structure Run where
  next : Nat
  entries : List Entry
  place : Place

namespace Run

def start (n : Nat) : Run := ⟨n, [], .outside⟩

/-- The run behind one more line. -/
def step (r : Run) (l : Text) : Run :=
  match r.place with
  | .outside =>
    match LineKind.ofLine l with
    | .skipped => ⟨r.next + 1, r.entries, .outside⟩
    | .faulty fault => ⟨r.next, r.entries, .stopped ⟨r.next, fault⟩⟩
    | .entry key value => ⟨r.next + 1, r.entries ++ [⟨key, value, r.next⟩], .outside⟩
    | .opening key first => ⟨r.next + 1, r.entries, .inside key r.next [first]⟩
  | .inside key line texts =>
    match Text.before? blockMark l with
    | none => ⟨r.next + 1, r.entries, .inside key line (texts ++ [l])⟩
    | some t =>
      ⟨r.next + 1, r.entries ++ [⟨key, Text.trim (Text.unlines (texts ++ [t])), line⟩], .outside⟩
  | .stopped _ => r

/-- The run goes on through more lines. -/
def through (r : Run) (ls : List Text) : Run := ls.foldl step r

/-- The fault of a document that ends here. -/
def fault? (r : Run) : Option LineError :=
  match r.place with
  | .outside => none
  | .inside _ line _ => some ⟨line, .unclosedBlock⟩
  | .stopped e => some e

@[simp] theorem through_nil (r : Run) : r.through [] = r := rfl

@[simp] theorem through_cons (r : Run) (l : Text) (ls : List Text) :
    r.through (l :: ls) = (r.step l).through ls := rfl

theorem through_append (r : Run) (ls ms : List Text) :
    r.through (ls ++ ms) = (r.through ls).through ms :=
  List.foldl_append

theorem fault?_eq_none_iff {r : Run} : r.fault? = none ↔ r.place = .outside := by
  unfold fault?
  cases r.place <;> simp

/-! ## One step -/

section

variable {n : Nat} {es : List Entry} {l : Text}

theorem step_skipped (h : IsSkipped l) :
    (⟨n, es, .outside⟩ : Run).step l = ⟨n + 1, es, .outside⟩ := by
  simp [step, LineKind.ofLine_of_skipped h]

theorem step_entry {key v value : Text} (ha : Assigns l key v) (hv : OneLine v value) :
    (⟨n, es, .outside⟩ : Run).step l = ⟨n + 1, es ++ [⟨key, value, n⟩], .outside⟩ := by
  simp [step, LineKind.ofLine_of_assigns ha, LineKind.ofValue_of_oneLine hv]

theorem step_opening {key first : Text} (ha : Assigns l key (blockMark ++ first))
    (hf : ¬blockMark <:+: first) :
    (⟨n, es, .outside⟩ : Run).step l = ⟨n + 1, es, .inside key n [first]⟩ := by
  simp [step, LineKind.ofLine_of_assigns ha, LineKind.ofValue_of_open hf]

theorem step_faulty {fault : LineFault} (h : LineKind.ofLine l = .faulty fault) :
    (⟨n, es, .outside⟩ : Run).step l = ⟨n, es, .stopped ⟨n, fault⟩⟩ := by
  simp [step, h]

theorem step_body {key : Text} {k : Nat} {texts : List Text} (h : ¬blockMark <:+: l) :
    (⟨n, es, .inside key k texts⟩ : Run).step l =
      ⟨n + 1, es, .inside key k (texts ++ [l])⟩ := by
  simp [step, Text.before?_eq_none_iff.mpr h]

theorem step_closing {key t : Text} {k : Nat} {texts : List Text} (h : Before blockMark t l) :
    (⟨n, es, .inside key k texts⟩ : Run).step l =
      ⟨n + 1, es ++ [⟨key, Text.trim (Text.unlines (texts ++ [t])), k⟩], .outside⟩ := by
  simp [step, Text.before?_eq_some_iff.mpr h]

theorem step_stopped {e : LineError} :
    (⟨n, es, .stopped e⟩ : Run).step l = ⟨n, es, .stopped e⟩ := rfl

end

/-- A line ends a block, or goes into it. -/
theorem mark_cases (l : Text) : ¬blockMark <:+: l ∨ ∃ t, Before blockMark t l := by
  cases h : Text.before? blockMark l with
  | none => exact .inl (Text.before?_eq_none_iff.mp h)
  | some t => exact .inr ⟨t, Text.before?_eq_some_iff.mp h⟩

theorem entries_step (r : Run) (l : Text) : r.entries <+: (r.step l).entries := by
  obtain ⟨n, es, place⟩ := r
  cases place with
  | outside =>
    simp only [step]
    split <;> simp
  | inside key k texts =>
    simp only [step]
    split <;> simp
  | stopped e => simp [step_stopped]

theorem through_stopped {n : Nat} {es : List Entry} {e : LineError} (ls : List Text) :
    (⟨n, es, .stopped e⟩ : Run).through ls = ⟨n, es, .stopped e⟩ := by
  induction ls with
  | nil => rfl
  | cons l ls ih => rw [through_cons, step_stopped, ih]

/-! ## The scan as a run -/

/-- Inside of a block the run goes on as the lines are cut. -/
theorem through_inside (n : Nat) (es : List Entry) (key : Text) (k : Nat) (texts ls : List Text) :
    (⟨n, es, .inside key k texts⟩ : Run).through ls =
      match cutBlock ls with
      | none => ⟨n + ls.length, es, .inside key k (texts ++ ls)⟩
      | some (cut, rest) =>
        (⟨n + cut.length, es ++ [⟨key, Text.trim (Text.unlines (texts ++ cut)), k⟩],
          .outside⟩ : Run).through rest := by
  induction ls generalizing n texts with
  | nil => simp [cutBlock]
  | cons l ls ih =>
    rw [through_cons, cutBlock]
    rcases mark_cases l with h | ⟨t, h⟩
    · rw [step_body h, ih, Text.before?_eq_none_iff.mpr h]
      cases cutBlock ls <;> simp [Nat.add_comm, Nat.add_left_comm]
    · rw [step_closing h, Text.before?_eq_some_iff.mpr h]
      simp

/-- What a run finds from outside is what the scan finds. -/
theorem through_outside (n : Nat) (es : List Entry) (ls : List Text) :
    ((⟨n, es, .outside⟩ : Run).through ls).entries = es ++ (scan n ls).1 ∧
      ((⟨n, es, .outside⟩ : Run).through ls).fault? = (scan n ls).2 := by
  induction hk : ls.length using Nat.strongRecOn generalizing n es ls with
  | ind k ih =>
    cases ls with
    | nil => simp [scan, fault?]
    | cons l ls =>
      have hls : ls.length < k := by rw [← hk]; exact Nat.lt_succ_self _
      rw [through_cons]
      rcases LineKind.ofLine_cases l with hs | ⟨key, v, ha⟩ | ⟨fault, hf⟩
      · rw [step_skipped hs, scan_skipped hs]
        exact ih _ hls _ _ _ rfl
      · rcases LineKind.ofValue_cases key v with ⟨w, hw, -⟩ | ⟨first, rfl, hf, -⟩
        · rw [step_entry ha hw, scan_entry ha hw]
          obtain ⟨he, hf⟩ := ih _ hls (n + 1) (es ++ [⟨key, w, n⟩]) ls rfl
          exact ⟨by rw [he]; simp, hf⟩
        · rw [step_opening ha hf, scan_opening ha hf, through_inside]
          cases hb : cutBlock ls with
          | none => simp [fault?]
          | some p =>
            obtain ⟨cut, rest⟩ := p
            have hlen := cutBlock_length hb
            obtain ⟨he, hf⟩ := ih rest.length (by omega) (n + 1 + cut.length)
              (es ++ [⟨key, Text.trim (Text.unlines (first :: cut)), n⟩]) rest rfl
            exact ⟨by simp [he], hf⟩
      · rw [step_faulty hf, through_stopped, scan_faulty hf]
        simp [fault?]

theorem scan_eq (n : Nat) (ls : List Text) :
    scan n ls = (((start n).through ls).entries, ((start n).through ls).fault?) := by
  obtain ⟨he, hf⟩ := through_outside n [] ls
  exact Prod.ext (by rw [start, he]; rfl) (by rw [start, hf])

/-- Items lead from outside to outside. -/
theorem through_item {i : Item} (h : i.Valid) (n : Nat) (es : List Entry) :
    (⟨n, es, .outside⟩ : Run).through i.lines =
      ⟨n + i.lines.length, es ++ (i.entry? n).toList, .outside⟩ := by
  cases h with
  | skipped hs => simp [Item.lines, step_skipped hs, Item.entry?]
  | entry ha hv => simp [Item.lines, step_entry ha hv, Item.entry?]
  | block ha hf hb hc =>
    simp [Item.lines, step_opening ha hf, through_inside, cutBlock_of_body hb hc, Item.entry?,
      Nat.add_comm, Nat.add_left_comm]

theorem through_items {items : List Item} (h : ∀ i ∈ items, i.Valid) (n : Nat) (es : List Entry) :
    (⟨n, es, .outside⟩ : Run).through (items.flatMap Item.lines) =
      ⟨n + lineCount items, es ++ entriesFrom n items, .outside⟩ := by
  induction items generalizing n es with
  | nil => simp [lineCount, entriesFrom]
  | cons i items ih =>
    rw [List.flatMap_cons, through_append, through_item (h i (List.mem_cons_self ..)),
      ih fun j hj => h j (List.mem_cons_of_mem _ hj)]
    simp [lineCount_cons, entriesFrom, Nat.add_assoc]

/-- An empty line changes nothing in what is found. -/
theorem step_nil (r : Run) : (r.step []).entries = r.entries ∧ (r.step []).fault? = r.fault? := by
  obtain ⟨n, es, place⟩ := r
  cases place with
  | outside => simp [step_skipped (l := []) (.inl rfl), fault?]
  | inside key k texts => simp [step_body (l := []) (by decide), fault?]
  | stopped e => simp [step_stopped]

/-- At the end of a document an empty line counts for nothing. -/
theorem scan_concat_empty (n : Nat) (ls : List Text) : scan n (ls ++ [[]]) = scan n ls := by
  obtain ⟨he, hf⟩ := ((start n).through ls).step_nil
  rw [scan_eq, scan_eq, through_append, through_cons, through_nil, he, hf]

end Run

end Packaging.Document
