import Packaging.Proofs.Document.Run
import Packaging.Proofs.Text.Items

/-! What a block does that is open before lines that were not meant for it. It takes them in up to
the next mark; if that opens another block, the end of that one is a fault outside of any block. And
once it has taken in a line that is not blank, its value has more than one line. -/

namespace Packaging.Document

open Text (AllBlank)

/-! ## Blocks in a block -/

theorem Assigns.value_infix {line key v : Text} (h : Assigns line key v) : v <:+: line := by
  obtain ⟨-, -, k, w, he, -, -, rfl⟩ := h
  exact (Text.trim_infix w).trans (.trans ⟨k ++ ['='], [], by simp [he]⟩ (Text.trim_infix line))

def Place.IsInside : Place → Prop
  | .inside _ _ _ => True
  | _ => False

namespace Run

/-- A line without the mark of a block opens none. -/
theorem step_not_inside {r : Run} (hr : ¬r.place.IsInside) {l : Text} (h : ¬blockMark <:+: l) :
    ¬(r.step l).place.IsInside := by
  obtain ⟨n, es, p⟩ := r
  cases p with
  | outside =>
    rcases LineKind.ofLine_cases l with hs | ⟨key, v, ha⟩ | ⟨fault, hf⟩
    · simp [step_skipped hs, Place.IsInside]
    · rcases LineKind.ofValue_cases key v with ⟨w, hw, -⟩ | ⟨first, rfl, -⟩
      · simp [step_entry ha hw, Place.IsInside]
      · exact absurd ((List.prefix_append blockMark first).isInfix.trans ha.value_infix) h
    · simp [step_faulty hf, Place.IsInside]
  | inside key k texts => exact absurd trivial hr
  | stopped e => exact hr

theorem through_not_inside {r : Run} (hr : ¬r.place.IsInside) {ls : List Text}
    (h : ∀ l ∈ ls, ¬blockMark <:+: l) : ¬(r.through ls).place.IsInside := by
  induction ls generalizing r with
  | nil => exact hr
  | cons l ls ih =>
    obtain ⟨hl, hls⟩ := List.forall_mem_cons.mp h
    exact ih (step_not_inside hr hl) hls

theorem step_mark_ne_outside {r : Run} (hr : ¬r.place.IsInside) :
    (r.step blockMark).place ≠ .outside := by
  obtain ⟨n, es, p⟩ := r
  cases p with
  | outside =>
    have hf : LineKind.ofLine blockMark = .faulty (.noEntry blockMark) := rfl
    simp [step_faulty hf]
  | inside key k texts => exact absurd trivial hr
  | stopped e => simp [step_stopped]

theorem through_lines_ne_outside {r : Run} (hr : r.place ≠ .outside) {ls : List Text}
    (h : ∀ l ∈ ls, ¬blockMark <:+: l) : (r.through ls).place ≠ .outside := by
  induction ls generalizing r with
  | nil => exact hr
  | cons l ls ih =>
    obtain ⟨hl, hls⟩ := List.forall_mem_cons.mp h
    refine ih ?_ hls
    obtain ⟨n, es, p⟩ := r
    cases p with
    | outside => exact absurd rfl hr
    | inside key k texts => simp [step_body hl]
    | stopped e => simp [step_stopped]

/-- A block that stands in another ends it with its opening line, and its own end is a fault. -/
theorem through_block_ne_outside {r : Run} (hr : r.place ≠ .outside) {opening : Text}
    {body : List Text} (ho : blockMark <:+: opening) (hb : ∀ l ∈ body, ¬blockMark <:+: l) :
    (r.through (opening :: body ++ [blockMark])).place ≠ .outside := by
  have hclosed : ¬(r.step opening).place.IsInside := by
    obtain ⟨n, es, p⟩ := r
    cases p with
    | outside => exact absurd rfl hr
    | inside key k texts =>
      rcases mark_cases opening with hm | ⟨t, hm⟩
      · exact absurd ho hm
      · simp [step_closing hm, Place.IsInside]
    | stopped e => simp [step_stopped, Place.IsInside]
  rw [List.cons_append, through_cons, through_append]
  exact step_mark_ne_outside (through_not_inside hclosed hb)

theorem through_items_ne_outside {items : List Item}
    (h : ∀ i ∈ items, ∀ r : Run, r.place ≠ .outside → (r.through i.lines).place ≠ .outside)
    {r : Run} (hr : r.place ≠ .outside) :
    (r.through (items.flatMap Item.lines)).place ≠ .outside := by
  induction items generalizing r with
  | nil => exact hr
  | cons i items ih =>
    obtain ⟨hi, his⟩ := List.forall_mem_cons.mp h
    rw [List.flatMap_cons, through_append]
    exact ih his (hi r hr)

end Run

/-! ## A value of several lines -/

namespace Run

/-- The value of the key runs over several lines, whether its block is over or not, unless the
reading stopped. -/
inductive Torn (key : Text) (r : Run) : Prop
  | found {e : Entry} : e ∈ r.entries → e.key = key → '\n' ∈ Text.trim e.value → Torn key r
  | inside {k : Nat} {texts : List Text} : r.place = .inside key k texts →
      (∀ more, '\n' ∈ Text.trim (Text.unlines (texts ++ more))) → Torn key r
  | stopped {e : LineError} : r.place = .stopped e → Torn key r

theorem Torn.step {key : Text} {r : Run} (h : Torn key r) (l : Text) : Torn key (r.step l) := by
  cases h with
  | found he hk hv => exact .found ((r.entries_step l).subset he) hk hv
  | @inside k texts hp ht =>
    obtain ⟨n, es, p⟩ := r
    obtain rfl : p = _ := hp
    rcases mark_cases l with hm | ⟨t, hm⟩
    · rw [step_body hm]
      exact .inside rfl fun more => by simpa using ht (l :: more)
    · rw [step_closing hm]
      exact .found (List.mem_append_right es (List.mem_singleton.mpr rfl)) rfl
        (by simpa using ht [t])
  | stopped hp =>
    obtain ⟨n, es, p⟩ := r
    obtain rfl : p = _ := hp
    exact .stopped rfl

theorem Torn.through {key : Text} {r : Run} (h : Torn key r) (ls : List Text) :
    Torn key (r.through ls) := by
  induction ls generalizing r with
  | nil => exact h
  | cons l ls ih => exact ih (h.step l)

/-- A block whose first text is not blank has several lines with the first other line that starts
with something. -/
theorem torn_step {n k : Nat} {es : List Entry} {key first : Text} {texts : List Text}
    (hf : ¬AllBlank first) {c : Char} (hc : Text.isBlank c = false) (hq : c ≠ '"') (t : Text) :
    Torn key ((⟨n, es, .inside key k (first :: texts)⟩ : Run).step (c :: t)) := by
  have hvalue : ∀ u more, '\n' ∈ Text.trim (Text.unlines (first :: texts ++ (c :: u) :: more)) := by
    intro u more
    rw [Text.unlines, List.cons_append, List.intercalate_cons_of_ne_nil (by simp),
      List.append_assoc, List.singleton_append]
    refine Text.newline_mem_trim hf fun hall => ?_
    have := hall c (Text.mem_intercalate_of_mem (s := c :: u) (by simp) (by simp))
    rw [hc] at this
    cases this
  rcases mark_cases (c :: t) with hm | ⟨u, hm⟩
  · rw [step_body hm]
    exact .inside rfl fun more => by simpa using hvalue t more
  · have hp : ¬blockMark <+: c :: t := fun hp => hq (List.cons_prefix_cons.mp hp).1.symm
    obtain ⟨v, rfl, -⟩ := (Text.before_cons_iff hp).mp hm
    rw [step_closing hm]
    exact .found (List.mem_append_right es (List.mem_singleton.mpr rfl)) rfl
      (by simpa using hvalue v [])

end Run

end Packaging.Document
