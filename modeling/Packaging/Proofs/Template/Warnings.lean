import Packaging.Proofs.Template.Suspect
import Packaging.Template.Warnings

/-! Runs of calls on one collection of warnings. Every call has its messages by itself, and what a
run collects is the messages of its calls, each where it first came. The set that messages are
looked up in stays the set of those that were collected. -/

namespace Packaging.Template

/-- What is said of a token, with the item it was found in if there is one. -/
def said (token : Text) : Option Text → Text
  | none => "Invalid macro ".toList ++ token
  | some item => "Invalid macro ".toList ++ token ++ " in ".toList ++ item

/-- What may happen to the warnings. -/
inductive Call where
  | expand (values : Values) (escape : Bool) (item : Option Text) (t : Text)
  | record (token : Text) (item : Option Text)

namespace Call

def apply (w : Warnings) : Call → Warnings
  | expand values escape item t => (Template.expand values escape item t w).2
  | record token item => (w.record token item).2

/-- The messages of the call, whether they are new or not. -/
def messages : Call → List Text
  | expand _ _ item t => (suspects t).map (said · item)
  | record token item => [said token item]

end Call

namespace Warnings

def run (w : Warnings) (calls : List Call) : Warnings := calls.foldl Call.apply w

def addAll (w : Warnings) (ms : List Text) : Warnings := ms.foldl (fun w m => (w.add m).2) w

/-- The set is that of the messages, and none of these is kept twice. -/
structure InStep (w : Warnings) : Prop where
  seen_iff (m : Text) : w.seen m = true ↔ m ∈ w.messages
  nodup : w.messages.Nodup

variable {w : Warnings} {m : Text}

/-! ## One message -/

theorem message_eq_said (token : Text) (item : Option Text) :
    message token item = said token item := by
  cases item with
  | none => exact List.append_nil _
  | some item => exact (List.append_assoc _ _ _).symm

theorem add_of_seen (h : w.seen m = true) : w.add m = (false, w) := if_pos h

theorem add_of_not_seen (h : w.seen m = false) :
    w.add m = (true, ⟨w.messages ++ [m], fun n => n == m || w.seen n⟩) :=
  if_neg (Bool.eq_false_iff.mp h)

/-- The answer to a message tells whether it was put behind the others. -/
theorem add_new_iff (w : Warnings) (m : Text) :
    ((w.add m).1 = true ↔ (w.add m).2.messages = w.messages ++ [m]) ∧
    ((w.add m).1 = false ↔ (w.add m).2 = w) := by
  cases h : w.seen m with
  | true => simp [add_of_seen h]
  | false =>
    rw [add_of_not_seen h]
    refine ⟨⟨fun _ => rfl, fun _ => rfl⟩, nofun, fun he => ?_⟩
    have hm : w.messages ++ [m] = w.messages := congrArg messages he
    simp at hm

theorem inStep_empty : empty.InStep := ⟨fun m => by simp [empty], .nil⟩

theorem InStep.add (h : w.InStep) (m : Text) : (w.add m).2.InStep := by
  cases hs : w.seen m with
  | true => rwa [add_of_seen hs]
  | false =>
    have hm : m ∉ w.messages := fun hm => by simp [(h.seen_iff m).mpr hm] at hs
    rw [add_of_not_seen hs]
    refine ⟨fun n => ?_, List.nodup_append.mpr ⟨h.nodup, List.nodup_singleton m, ?_⟩⟩
    · simp [h.seen_iff, or_comm]
    · rintro n hn k hk rfl
      exact hm (List.mem_singleton.mp hk ▸ hn)

/-! ## Many messages -/

theorem addAll_append (w : Warnings) (ms ns : List Text) :
    w.addAll (ms ++ ns) = (w.addAll ms).addAll ns := List.foldl_append

/-- What is new among the messages comes behind what was there. -/
theorem messages_addAll (w : Warnings) (ms : List Text) :
    (w.addAll ms).messages = w.messages ++ (ms.filter fun m => !w.seen m).eraseDups := by
  induction ms generalizing w with
  | nil => simp [addAll]
  | cons m ms ih =>
    have hstep : w.addAll (m :: ms) = (w.add m).2.addAll ms := rfl
    rw [hstep, ih, List.filter_cons]
    cases h : w.seen m with
    | true => simp [add_of_seen h]
    | false => simp [add_of_not_seen h, List.eraseDups_cons]

theorem InStep.addAll (h : w.InStep) (ms : List Text) : (w.addAll ms).InStep := by
  induction ms generalizing w with
  | nil => exact h
  | cons m ms ih => exact ih (h.add m)

/-! ## Calls -/

/-- A step of a run: neither the values nor the escaping count. -/
theorem apply_eq_addAll (w : Warnings) (c : Call) : c.apply w = w.addAll c.messages := by
  cases c with
  | record token item =>
    rw [Call.messages, ← message_eq_said]
    rfl
  | expand values escape item t =>
    show (pieceSuspects t).foldl (fun w token => (w.record token item).2) w = _
    rw [pieceSuspects_eq, addAll, Call.messages, List.foldl_map]
    simp only [record, message_eq_said]

theorem run_eq_addAll (w : Warnings) (calls : List Call) :
    w.run calls = w.addAll (calls.flatMap Call.messages) := by
  induction calls generalizing w with
  | nil => rfl
  | cons c calls ih =>
    rw [List.flatMap_cons, addAll_append, ← apply_eq_addAll]
    exact ih _

theorem InStep.run (h : w.InStep) (calls : List Call) : (w.run calls).InStep := by
  rw [run_eq_addAll]
  exact h.addAll _

theorem InStep.record_new_iff (h : w.InStep) (token : Text) (item : Option Text) :
    (w.record token item).1 = true ↔ said token item ∉ w.messages := by
  rw [record, message_eq_said, ← h.seen_iff]
  cases hs : w.seen (said token item) with
  | true => simp [add_of_seen hs]
  | false => simp [add_of_not_seen hs]

/-- What a run collects from nothing is the messages of its calls, each once and where it first
came, and the set stays in step with them. Nothing that was collected is lost or moved, a recording
tells whether its message was put behind the others, which it is if it did not come before, and
values and escaping make no difference. -/
theorem run_collects_first_occurrences :
    (∀ calls, (empty.run calls).messages = (calls.flatMap Call.messages).eraseDups) ∧
    (∀ calls, (empty.run calls).InStep) ∧
    (∀ (w : Warnings) calls, w.messages <+: (w.run calls).messages) ∧
    (∀ (w : Warnings) token item,
      ((w.record token item).1 = true ↔
        (w.record token item).2.messages = w.messages ++ [said token item]) ∧
      ((w.record token item).1 = false ↔ (w.record token item).2 = w)) ∧
    (∀ calls token item, ((empty.run calls).record token item).1 = true ↔
      said token item ∉ (empty.run calls).messages) ∧
    (∀ values values' escape escape' item t w,
      (expand values escape item t w).2 = (expand values' escape' item t w).2) := by
  refine ⟨fun calls => ?_, fun calls => inStep_empty.run calls, fun w calls => ?_,
    fun w token item => ?_, fun calls => (inStep_empty.run calls).record_new_iff, ?_⟩
  · rw [run_eq_addAll, messages_addAll]
    simp [empty]
  · rw [run_eq_addAll, messages_addAll]
    exact List.prefix_append _ _
  · rw [record, message_eq_said]
    exact add_new_iff w _
  · intro values values' escape escape' item t w
    have h := apply_eq_addAll w (.expand values escape item t)
    exact h.trans (apply_eq_addAll w (.expand values' escape' item t)).symm

/-- The same token in two texts, a variable, and tokens that are cut short at the next opening and
at the end of the text. -/
example :
    (empty.run [
      .expand Variable.token true none "$\x7bA\x7d$\x7bAPP_ID\x7d$\x7bB$\x7bA\x7d".toList,
      .record "$\x7bA\x7d".toList none,
      .expand Variable.token false none "$\x7bA\x7d$$\x7bab".toList]).messages =
    ["Invalid macro $\x7bA\x7d".toList, "Invalid macro $\x7bB".toList,
      "Invalid macro $\x7bab".toList] := by
  decide +kernel

end Warnings

end Packaging.Template
