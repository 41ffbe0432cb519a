import Packaging.Proofs.Descriptor.Layout

/-! What a written descriptor is read from. If its values are clean, its document is accepted in
either layout, answers for each setting with just the value that was written for it, and holds no
other keys. -/

namespace Packaging

open Document (Item)
open Layout (textOf documentItems pair?)
open Text (OwnLine ended)

/-- What a setting is read from once it was written. -/
def Written.found? (w : Written) : Option Text :=
  (some (Text.trim w.value)).filter (!·.isEmpty)

namespace Descriptor

def written (d : Descriptor) (s : Setting) : Written := s.kind.written d.base (d.value s)

def entryItem (d : Descriptor) (s : Setting) : Item := (d.written s).item s.key

/-- Every value stands for itself in a document. -/
def Clean (d : Descriptor) : Prop := ∀ s, (d.written s).Clean

theorem textOf_items (d : Descriptor) (layout : Layout) :
    textOf (documentItems layout d.entryItem) = Section.all.flatMap (d.sectionText layout) := by
  rw [Layout.textOf_document]
  refine List.flatMap_congr fun sec _ => ?_
  simp only [entryItem, Written.ended_item]
  rfl

theorem quoted_ofBool (b : Bool) : ∃ t, Written.quoted (Text.ofBool b) = t ++ ['e'] := by
  cases b with
  | false => exact ⟨['f', 'a', 'l', 's'], by decide⟩
  | true => exact ⟨['t', 'r', 'u'], by decide⟩

/-- The last setting is a flag, so its line is the last that anything is left of. -/
theorem ended_last (d : Descriptor) :
    ∃ l, ended (d.entryItem .setupVersionOutput).lines = l ++ ['e', '\n'] := by
  obtain ⟨t, ht⟩ := quoted_ofBool (d.value .setupVersionOutput)
  unfold entryItem
  rw [Written.ended_item]
  refine ⟨Written.assignment Setting.setupVersionOutput.key t, ?_⟩
  show Written.entryLine _ (Written.quoted (Text.ofBool (d.value .setupVersionOutput))) = _
  rw [Written.entryLine_eq, ht, Written.assignment, Written.assignment]
  simp only [List.append_assoc, List.cons_append, List.nil_append]

/-- The document is the text of its items but the empty line at the end. -/
theorem write_eq (d : Descriptor) (layout : Layout) :
    ∃ items, documentItems layout d.entryItem = items ++ [.skipped []] ∧
      d.write layout = textOf items := by
  obtain ⟨is, his⟩ := Layout.documentItems_eq layout d.entryItem
  refine ⟨is ++ [d.entryItem .setupVersionOutput], by rw [his, List.append_assoc]; rfl, ?_⟩
  obtain ⟨l, hl⟩ := d.ended_last
  have hbody : Section.all.flatMap (d.sectionText layout) =
      (textOf is ++ l ++ ['e']) ++ ['\n', '\n'] := by
    rw [← textOf_items, his, Layout.textOf_append, Layout.textOf_cons, hl]
    simp [textOf, Item.lines, ended]
  have htrim : Text.trimEnd (textOf is ++ l ++ ['e']) = textOf is ++ l ++ ['e'] := by
    refine Text.trimEnd_of_last fun c hc => ?_
    rw [List.getLast?_concat] at hc
    rw [← Option.some.inj hc]
    decide
  unfold write
  rw [hbody, Text.trimEnd_append, htrim, Layout.textOf_append, Layout.textOf_cons, hl]
  · simp [textOf, ended]
  · intro c hc
    simp only [List.mem_cons, List.not_mem_nil, or_false, or_self] at hc
    rw [hc]
    decide

theorem mem_items {layout : Layout} {d : Descriptor} (h : d.Clean) {i : Item}
    (hi : i ∈ documentItems layout d.entryItem) : i.Valid ∧ ∀ l ∈ i.lines, OwnLine l := by
  rcases Layout.passed_or_entry_of_document hi with ⟨l, rfl, hs, ho⟩ | ⟨s, rfl⟩
  · exact ⟨.skipped hs, fun m hm => by rw [List.mem_singleton.mp hm]; exact ho⟩
  · exact ⟨Written.valid_item s.isKey (h s), Written.ownLine_item s.isKey (h s).ownLine⟩

/-- The entries of a written document, setting by setting. -/
theorem ofText_write {d : Descriptor} (h : d.Clean) (name : Text) (layout : Layout) :
    ∃ doc, Document.ofText name (d.write layout) = .ok doc ∧
      doc.entries.map (fun e => (e.key, e.value)) =
        Setting.all.map fun s => (s.key, (d.written s).value) := by
  obtain ⟨items, hitems, hw⟩ := d.write_eq layout
  have hmem : ∀ i ∈ items, i ∈ documentItems layout d.entryItem := fun i hi => by
    rw [hitems]; exact List.mem_append_left _ hi
  have hlines : Text.lines (d.write layout) = items.flatMap Item.lines := by
    rw [hw, textOf, Text.lines_ended]
    intro l hl
    obtain ⟨i, hi, hl⟩ := List.mem_flatMap.mp hl
    exact (mem_items h (hmem i hi)).2 l hl
  have hpairs : (Document.entriesFrom 1 items).map (fun e => (e.key, e.value)) =
      Setting.all.map fun s => (s.key, (d.written s).value) := by
    have hall := Layout.filterMap_document layout d.entryItem
    rw [hitems, List.filterMap_append] at hall
    rw [Layout.map_entriesFrom, ← List.filterMap_eq_map']
    refine Eq.trans (List.append_nil _).symm (hall.trans (List.filterMap_congr fun s _ => ?_))
    unfold pair?
    rw [entryItem, Written.entry?_item]
    rfl
  have hnodup : ((Document.entriesFrom 1 items).map Entry.folded).Nodup := by
    have hf := congrArg (List.map fun p => Text.lower p.1) hpairs
    rw [List.map_map, List.map_map] at hf
    exact hf ▸ Setting.nodup_lower_keys
  exact ⟨_, Document.ofLines_eq_ok_iff_cut.mpr
    ⟨items, ⟨hlines.symm, fun i hi => (mem_items h (hmem i hi)).1⟩, hnodup, rfl⟩, hpairs⟩

theorem find?_lower_key (s : Setting) :
    Setting.all.find? (fun r => Text.lower r.key == Text.lower s.key) = some s := by
  cases hf : Setting.all.find? fun r => Text.lower r.key == Text.lower s.key with
  | none => exact absurd (List.find?_eq_none.mp hf s (Setting.mem_all s)) (by simp)
  | some r =>
    have hr := List.find?_some hf
    rw [Setting.lower_key_inj (beq_iff_eq.mp hr)]

theorem setting?_of_entries {d : Descriptor} {doc : Document}
    (h : doc.entries.map (fun e => (e.key, e.value)) =
      Setting.all.map fun s => (s.key, (d.written s).value)) (s : Setting) :
    doc.setting? s.key = (d.written s).found? := by
  have hget : doc.get? s.key = some (d.written s).value := by
    have hf := congrArg (fun ps => (ps.find? fun p => Text.lower p.1 == Text.lower s.key).map
      Prod.snd) h
    simp only [List.find?_map, Function.comp_def, Option.map_map, find?_lower_key] at hf
    exact hf
  unfold Document.setting?
  rw [hget]
  rfl

theorem unknownKeys_of_entries {d : Descriptor} {doc : Document}
    (h : doc.entries.map (fun e => (e.key, e.value)) =
      Setting.all.map fun s => (s.key, (d.written s).value)) : unknownKeys doc = [] := by
  have hk := congrArg (List.map Prod.fst) h
  rw [List.map_map, List.map_map] at hk
  change doc.entries.map (·.key) = Setting.all.map Setting.key at hk
  unfold unknownKeys
  rw [hk, List.filter_eq_nil_iff]
  intro k hm
  obtain ⟨s, -, rfl⟩ := List.mem_map.mp hm
  have : Setting.isDeclared s.key = true :=
    List.any_eq_true.mpr ⟨s, Setting.mem_all s, beq_iff_eq.mpr rfl⟩
  rw [this]
  nofun

/-- Reading what was written finds the written values again, and nothing else. -/
theorem exists_document {d : Descriptor} (h : d.Clean) (name : Text) (layout : Layout) :
    ∃ doc, Document.ofText name (d.write layout) = .ok doc ∧
      (∀ s : Setting, doc.setting? s.key = (d.written s).found?) ∧ unknownKeys doc = [] := by
  obtain ⟨doc, hdoc, hp⟩ := ofText_write h name layout
  exact ⟨doc, hdoc, setting?_of_entries hp, unknownKeys_of_entries hp⟩

end Descriptor

end Packaging
