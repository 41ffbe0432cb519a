import Packaging.Proofs.Descriptor.FirstFault
import Packaging.Proofs.Descriptor.Parts

/-! The entries that no setting asks for. A reading asks for one setting after the other and keeps
the keys it asked for; where it gets to its end it has asked for all of them, whether they are there
or not. So the entries that are left over are those with the key of no setting, and a document says
the same to every setting without their lines. -/

namespace Packaging

open Document (Item Cut entriesFrom ofLines pairs)
open Layout (pair?)

/-! ## Asking for keys -/

/-- A reading that keeps the folded keys it has asked for. -/
abbrev Asking (α : Type) : Type := StateT (List Text) (Except Fault) α

namespace Asking

variable (doc : Document) (base : Path) (check : PathCheck)

/-- The trimmed value of a setting. Its key counts as asked for also if it is not there. -/
def lookUp (s : Setting) : Asking (Option Text) := do
  modify fun asked => asked ++ [Text.lower s.key]
  pure (doc.setting? s.key)

def value (s : Setting) : Asking s.Value := do
  match s.kind.read base check (← lookUp doc s) with
  | .ok v => pure v
  | .error fault => throw (.setting s fault)

/-- The values of settings, each of them asked for when those before it are read. -/
def values (ss : List Setting) : Asking (List ((s : Setting) × s.Value)) :=
  ss.mapM fun s => do return ⟨s, ← value doc base check s⟩

variable {doc base check}

theorem run_value (s : Setting) (asked : List Text) :
    (value doc base check s).run asked =
      match s.read doc base check with
      | .ok v => .ok (v, asked ++ [Text.lower s.key])
      | .error fault => .error (.setting s fault) := by
  have hread : s.read doc base check = s.kind.read base check (doc.setting? s.key) := rfl
  rw [hread, value]
  cases h : s.kind.read base check (doc.setting? s.key) <;> simp [lookUp, h] <;> rfl

theorem run_values_nil (asked : List Text) :
    (values doc base check []).run asked = .ok ([], asked) := rfl

theorem run_values_cons (s : Setting) (ss : List Setting) (asked : List Text) :
    (values doc base check (s :: ss)).run asked =
      match s.read doc base check with
      | .ok v => ((values doc base check ss).run (asked ++ [Text.lower s.key])).map
          fun r => (⟨s, v⟩ :: r.1, r.2)
      | .error fault => .error (.setting s fault) := by
  rw [values, List.mapM_cons]
  simp only [StateT.run_bind, run_value]
  cases s.read doc base check with
  | error fault => rfl
  | ok v =>
    change ((values doc base check ss).run (asked ++ [Text.lower s.key]) >>=
      fun r => pure (⟨s, v⟩ :: r.1, r.2)) = _
    cases (values doc base check ss).run (asked ++ [Text.lower s.key]) <;> rfl

/-- A reading that gets to its end has asked for every setting. -/
theorem run_values_of_ok {value : (s : Setting) → s.Value} {ss : List Setting}
    (h : ∀ s ∈ ss, s.read doc base check = .ok (value s)) (asked : List Text) :
    (values doc base check ss).run asked =
      .ok (ss.map fun s => ⟨s, value s⟩, asked ++ ss.map fun s => Text.lower s.key) := by
  induction ss generalizing asked with
  | nil => simp [run_values_nil]
  | cons s ss ih =>
    obtain ⟨hs, hss⟩ := List.forall_mem_cons.mp h
    rw [run_values_cons, hs, ih hss]
    simp [Except.map]

theorem run_values_of_error {front back : List Setting} {s : Setting} {fault : SettingFault}
    (hfront : ∀ t ∈ front, ∃ v, t.read doc base check = .ok v)
    (hs : s.read doc base check = .error fault) (asked : List Text) :
    (values doc base check (front ++ s :: back)).run asked = .error (.setting s fault) := by
  induction front generalizing asked with
  | nil => rw [List.nil_append, run_values_cons, hs]
  | cons t front ih =>
    obtain ⟨⟨v, hv⟩, hrest⟩ := List.forall_mem_cons.mp hfront
    rw [List.cons_append, run_values_cons, hv, ih hrest]
    rfl

end Asking

/-! ## What is left over -/

/-- The entry has the key of no setting, in any case. -/
def Entry.IsStray (e : Entry) : Prop := ∀ s : Setting, e.folded ≠ Text.lower s.key

theorem Setting.isDeclared_iff {key : Text} :
    isDeclared key = true ↔ ∃ s : Setting, Text.lower key = Text.lower s.key := by
  simp only [isDeclared, List.any_eq_true, beq_iff_eq]
  exact ⟨fun ⟨s, _, h⟩ => ⟨s, h.symm⟩, fun ⟨s, h⟩ => ⟨s, mem_all s, h.symm⟩⟩

example : Setting.all.length = 46 := rfl

theorem Entry.isStray_iff {e : Entry} : e.IsStray ↔ Setting.isDeclared e.key = false := by
  rw [← Bool.not_eq_true, Setting.isDeclared_iff]
  exact ⟨fun h ⟨s, hs⟩ => h s hs, fun h s hs => h ⟨s, hs⟩⟩

instance : DecidablePred Entry.IsStray := fun _ => decidable_of_iff _ Entry.isStray_iff.symm

theorem Entry.not_isStray_iff {e : Entry} : ¬e.IsStray ↔ Setting.isDeclared e.key = true := by
  rw [Entry.isStray_iff, Bool.not_eq_false]

/-- The item holds the entry of a setting, or none. -/
def Document.Item.isAsked (i : Item) : Bool := (i.entry? 0).all fun e => ¬e.IsStray

namespace Descriptor

/-- The entries with keys that were not asked for. -/
def leftOver (asked : List Text) (es : List Entry) : List Entry :=
  es.filter fun e => e.folded ∉ asked

/-- Reads the settings in turn. The keys that were not asked for are unknown. -/
def inTurn (doc : Document) (base : Path) (check : PathCheck) :
    Except Fault (Path × List ((s : Setting) × s.Value) × List Text) := do
  let (values, asked) ← (Asking.values doc base.normal check Setting.all).run []
  .ok (base.normal, values, (leftOver asked doc.entries).map Entry.key)

theorem leftOver_all (es : List Entry) :
    leftOver (Setting.all.map fun s => Text.lower s.key) es = es.filter fun e => e.IsStray := by
  refine List.filter_congr fun e _ => decide_eq_decide.mpr ?_
  simp only [List.mem_map, not_exists, not_and, Entry.IsStray]
  exact ⟨fun h s hs => h s (Setting.mem_all s) hs.symm, fun h s _ hs => h s hs.symm⟩

theorem unknownKeys_eq (doc : Document) :
    unknownKeys doc = (doc.entries.filter fun e => e.IsStray).map Entry.key := by
  rw [unknownKeys, List.filter_map]
  congr 1
  refine List.filter_congr fun e _ => ?_
  rw [Function.comp_apply, Bool.eq_iff_iff, Bool.not_eq_true', decide_eq_true_iff,
    Entry.isStray_iff]

/-- Read in turn, a document is refused as it is otherwise, or gives the same. -/
theorem inTurn_eq (doc : Document) (base : Path) (check : PathCheck) :
    inTurn doc base check = (ofDocument doc base check).map fun d =>
      (d.base, Setting.all.map fun s => ⟨s, d.value s⟩, d.unknown) := by
  unfold inTurn
  cases h : ofDocument doc base check with
  | ok d =>
    obtain ⟨hbase, hunknown, hread⟩ := ofDocument_eq_ok_iff.mp h
    rw [Asking.run_values_of_ok fun s _ => hread s, List.nil_append]
    rw [Except.map, hbase, hunknown, unknownKeys_eq, ← leftOver_all]
    rfl
  | error f =>
    obtain ⟨s, fault, rfl, hs, hbefore⟩ := ofDocument_eq_error_iff.mp h
    obtain ⟨front, back, hall⟩ := List.append_of_mem (Setting.mem_all s)
    rw [hall, Asking.run_values_of_error
      (fun t ht => hbefore t ((Setting.mem_front_iff hall).mp ht)) hs]
    rfl

end Descriptor

/-! ## Without them -/

theorem Document.get?_of_pairs_filter {doc doc' : Document}
    (h : pairs doc'.entries = (pairs doc.entries).filter fun p => Setting.isDeclared p.1)
    (s : Setting) : doc'.get? s.key = doc.get? s.key := by
  rw [get?_eq, get?_eq, h, List.find?_filter]
  congr 2
  funext p
  rw [Bool.eq_iff_iff, decide_eq_true_iff, beq_iff_eq]
  exact and_iff_right_of_imp fun hp => Setting.isDeclared_iff.mpr ⟨s, hp⟩

/-- Without the entries of no setting every setting is read as before. -/
theorem Descriptor.ofDocument_of_pairs_filter {doc doc' : Document}
    (h : pairs doc'.entries = (pairs doc.entries).filter fun p => Setting.isDeclared p.1)
    (base : Path) (check : PathCheck) :
    ofDocument doc' base check =
      (ofDocument doc base check).map fun d => { d with unknown := [] } := by
  have hread : (fun s : Setting => s.read doc' base.normal check) =
      fun s : Setting => s.read doc base.normal check := by
    funext s
    rw [Setting.read, Setting.read, Document.setting?, Document.setting?,
      Document.get?_of_pairs_filter h]
  have hunknown : unknownKeys doc' = [] := by
    have hkeys : doc'.entries.map (·.key) = (pairs doc'.entries).map Prod.fst := by simp [pairs]
    rw [unknownKeys, hkeys, h, List.filter_eq_nil_iff]
    simp
  rw [ofDocument, ofDocument, hread, hunknown]
  cases Setting.collect fun s => s.read doc base.normal check <;> rfl

theorem filterMap_pair?_filter (items : List Item) :
    (items.filter Item.isAsked).filterMap pair? =
      (items.filterMap pair?).filter fun p => Setting.isDeclared p.1 := by
  rw [List.filterMap_filter, List.filter_filterMap]
  congr 1
  funext i
  unfold Item.isAsked pair?
  cases i.entry? 0 with
  | none => rfl
  | some e => simp [Option.filter, Entry.not_isStray_iff]

theorem pairs_entriesFrom_filter (n : Nat) (items : List Item) :
    pairs (entriesFrom n (items.filter Item.isAsked)) =
      (pairs (entriesFrom n items)).filter fun p => Setting.isDeclared p.1 := by
  rw [Layout.pairs_entriesFrom, Layout.pairs_entriesFrom, filterMap_pair?_filter]

/-- Items that are left out leave a document behind. -/
theorem Document.Cut.ofLines_filter {lines : List Text} {items : List Item} (h : Cut lines items)
    (hd : ((entriesFrom 1 items).map Entry.folded).Nodup) (name : Text) :
    ofLines name ((items.filter Item.isAsked).flatMap Item.lines) =
      .ok ⟨name, (items.filter Item.isAsked).flatMap Item.lines,
        entriesFrom 1 (items.filter Item.isAsked)⟩ := by
  have hcut : Cut ((items.filter Item.isAsked).flatMap Item.lines) (items.filter Item.isAsked) :=
    ⟨rfl, fun i hi => h.valid i (List.mem_of_mem_filter hi)⟩
  refine ofLines_eq_ok_iff_cut.mpr ⟨_, hcut, ?_, rfl⟩
  rw [map_folded_eq, pairs_entriesFrom_filter]
  rw [map_folded_eq] at hd
  exact hd.sublist (List.filter_sublist.map _)

namespace Descriptor

/-- Whoever reads a document by asking for one setting after the other finds what there is to be
found, and the keys left over. These are the keys of the entries that have the key of no setting, as
they are written and in their order. With their lines left out the document is refused as before, or
gives the same descriptor without unknown keys. -/
theorem stray_entries_reported_and_inert {name : Text} {lines : List Text} {doc : Document}
    (h : ofLines name lines = .ok doc) (base : Path) (check : PathCheck) :
    inTurn doc base check = (ofDocument doc base check).map (fun d =>
      (d.base, Setting.all.map fun s => ⟨s, d.value s⟩, d.unknown)) ∧
    (∀ d, ofDocument doc base check = .ok d →
      d.unknown = (doc.entries.filter fun e => e.IsStray).map Entry.key) ∧
    ∃ items doc', Cut lines items ∧
      ofLines name ((items.filter Item.isAsked).flatMap Item.lines) = .ok doc' ∧
      pairs doc'.entries = pairs (doc.entries.filter fun e => ¬e.IsStray) ∧
      ofDocument doc' base check =
        (ofDocument doc base check).map fun d => { d with unknown := [] } := by
  obtain ⟨items, hcut, hd, rfl⟩ := Document.ofLines_eq_ok_iff_cut.mp h
  have hpairs := pairs_entriesFrom_filter 1 items
  refine ⟨inTurn_eq _ base check, fun d hok => ?_, items, _, hcut, hcut.ofLines_filter hd name,
    ?_, ofDocument_of_pairs_filter hpairs base check⟩
  · rw [(ofDocument_eq_ok_iff.mp hok).2.1, unknownKeys_eq]
  · rw [hpairs, pairs, pairs, List.filter_map]
    congr 1
    refine List.filter_congr fun e _ => ?_
    rw [Bool.eq_iff_iff, decide_eq_true_iff, Entry.not_isStray_iff]
    rfl

/-- A block and an entry of no setting. The Kelvin sign is a capital K, so the last key is one of a
setting. -/
def strayDocument : Document where
  name := []
  lines := ["AppBaseName = app", "AppFriendlyName = App", "Extra = \"\"\"", "AppId = other",
    "\"\"\"", "AppId = org.app", "AppVersionRelease = 1.0", "AppShortSummary = An app",
    "AppLicenseId = MIT", "PublisherName = Me", "appbase = b", "Pac\u212AageName = pack"].map
      String.toList
  entries := [("AppBaseName", "app", 1), ("AppFriendlyName", "App", 2),
    ("Extra", "AppId = other", 3), ("AppId", "org.app", 6), ("AppVersionRelease", "1.0", 7),
    ("AppShortSummary", "An app", 8), ("AppLicenseId", "MIT", 9), ("PublisherName", "Me", 10),
    ("appbase", "b", 11), ("Pac\u212AageName", "pack", 12)].map
      fun e => ⟨e.1.toList, e.2.1.toList, e.2.2⟩

theorem stray_entries_reported_and_inert_strayDocument :
    ofLines [] strayDocument.lines = .ok strayDocument ∧
    ∃ d, ofDocument strayDocument ⟨"/base".toList⟩ .off = .ok d ∧
      d.packageName = "pack".toList ∧ d.unknown = ["Extra".toList, "appbase".toList] ∧
      ∃ items doc', Cut strayDocument.lines items ∧
        ofLines [] ((items.filter Item.isAsked).flatMap Item.lines) = .ok doc' ∧
        ofDocument doc' ⟨"/base".toList⟩ .off = .ok { d with unknown := [] } := by
  have h : ofLines [] strayDocument.lines = .ok strayDocument := by decide +kernel
  have hread : (ofDocument strayDocument ⟨"/base".toList⟩ .off).toOption.map
      Descriptor.packageName = some "pack".toList := by decide +kernel
  obtain ⟨d, hok, hname⟩ := exists_ok_of_map hread
  obtain ⟨-, hunknown, items, doc', hcut, hdoc', -, hsame⟩ :=
    stray_entries_reported_and_inert h ⟨"/base".toList⟩ .off
  rw [hok] at hsame
  exact ⟨h, d, hok, hname, (hunknown d hok).trans (by decide +kernel), items, doc', hcut, hdoc',
    hsame⟩

end Descriptor

end Packaging
