import Mathlib.Data.List.Nodup
import Packaging.Proofs.Descriptor.Entry
import Packaging.Proofs.Document.Cut

/-! A written document as items. What surrounds the entries is passed over, so a document whose
values are clean is read as one entry for each setting, in their order, in either layout. -/

namespace Packaging

open Document (Item)
open Text (OwnLine ended)

/-! ## Keys -/

theorem IsKey.of_literal {s : String} {l : Text} (hs : s = String.ofList l)
    (h : l ≠ [] ∧ l.all Char.isAlpha = true) : IsKey s.toList := by
  rw [hs, String.toList_ofList]
  exact ⟨h.1, List.all_eq_true.mp h.2⟩

theorem Setting.isKey (s : Setting) : IsKey s.key := by
  cases s <;> exact IsKey.of_literal rfl (by decide +kernel)

theorem Setting.nodup_lower_keys : (all.map fun s => Text.lower s.key).Nodup := by
  decide +kernel

theorem Setting.lower_key_inj {s r : Setting} (h : Text.lower s.key = Text.lower r.key) : s = r :=
  List.inj_on_of_nodup_map nodup_lower_keys (mem_all s) (mem_all r) h

/-! ## Comments -/

namespace Layout

theorem ownLine_help (s : Setting) : ∀ t ∈ s.declaration.help, OwnLine t.toList := by
  cases s <;>
    simp only [List.forall_mem_cons, List.not_mem_nil, false_implies, implies_true, and_true] <;>
    first
    | exact OwnLine.of_literal rfl (by decide +kernel)
    | exact ⟨OwnLine.of_literal rfl (by decide +kernel), OwnLine.of_literal rfl (by decide +kernel)⟩

theorem ownLine_title (sec : Section) : OwnLine sec.title.toList := by
  cases sec <;> exact OwnLine.of_literal rfl (by decide +kernel)

/-- Lines that are passed over. -/
def Passed (i : Item) : Prop := ∃ l, i = .skipped l ∧ Document.IsSkipped l ∧ OwnLine l

theorem passed_empty : Passed (.skipped []) := ⟨[], rfl, .inl rfl, Text.ownLine_nil⟩

theorem passed_hash {t : Text} (h : OwnLine ('#' :: t)) : Passed (.skipped ('#' :: t)) :=
  ⟨_, rfl, .inr (.inl (Text.head_prefix_trim rfl t)), h⟩

theorem passed_comment {t : Text} (h : OwnLine t) : Passed (.skipped ('#' :: ' ' :: t)) := by
  refine passed_hash ⟨?_, ?_⟩
  · rw [List.mem_cons, List.mem_cons, not_or, not_or]
    exact ⟨by decide, by decide, h.feedless⟩
  · cases t with
    | nil => decide
    | cons c r =>
      rw [List.getLast?_cons_cons, List.getLast?_cons_cons]
      exact h.last

/-! ## Items -/

def ruleItem : Item := .skipped (List.replicate 40 '#')

def commentItem (t : String) : Item := .skipped ('#' :: ' ' :: t.toList)

def headingItems (sec : Section) : List Item :=
  [ruleItem, commentItem sec.title, ruleItem, .skipped []]

/-- The items of a setting, one of which is its entry. -/
def settingItems (layout : Layout) (s : Setting) (entry : Item) : List Item :=
  match layout with
  | .verbose => s.declaration.help.map commentItem ++ [entry, .skipped []]
  | .minimal => [entry]

def endItems : Layout → List Item
  | .verbose => []
  | .minimal => [.skipped []]

/-- The text of items, all of whose lines are ended. -/
def textOf (items : List Item) : Text := ended (items.flatMap Item.lines)

theorem textOf_append (is js : List Item) : textOf (is ++ js) = textOf is ++ textOf js := by
  rw [textOf, List.flatMap_append, Text.ended_append, textOf, textOf]

theorem textOf_cons (i : Item) (is : List Item) :
    textOf (i :: is) = ended i.lines ++ textOf is := by
  rw [textOf, List.flatMap_cons, Text.ended_append, textOf]

theorem textOf_flatMap {α : Type} (f : α → List Item) (xs : List α) :
    textOf (xs.flatMap f) = xs.flatMap fun x => textOf (f x) := by
  induction xs with
  | nil => rfl
  | cons x xs ih => rw [List.flatMap_cons, List.flatMap_cons, textOf_append, ih]

theorem textOf_comments (ts : List String) :
    textOf (ts.map commentItem) = ts.flatMap fun t => commentLine t.toList := by
  induction ts with
  | nil => rfl
  | cons t ts ih =>
    rw [List.map_cons, textOf_cons, ih, List.flatMap_cons]
    simp [commentItem, Item.lines, ended, commentLine]

theorem textOf_heading (sec : Section) : textOf (headingItems sec) = heading sec := by
  simp [headingItems, textOf, ended, ruleItem, commentItem, Item.lines, heading, rule, commentLine]

theorem textOf_setting (layout : Layout) (s : Setting) (entry : Item) :
    textOf (settingItems layout s entry) = layout.setting s (ended entry.lines) := by
  cases layout with
  | verbose =>
    unfold settingItems
    rw [textOf_append, textOf_comments, setting, helpLines, List.append_assoc]
    simp [textOf, ended, Item.lines]
  | minimal => simp [settingItems, textOf, setting]

theorem textOf_end (layout : Layout) : textOf layout.endItems = layout.sectionEnd := by
  cases layout <;> rfl

theorem passed_heading {sec : Section} {i : Item} (h : i ∈ headingItems sec) : Passed i := by
  have hrule : Passed ruleItem := passed_hash (t := List.replicate 39 '#') ⟨by decide, by decide⟩
  simp only [headingItems, List.mem_cons, List.not_mem_nil, or_false] at h
  rcases h with rfl | rfl | rfl | rfl
  · exact hrule
  · exact passed_comment (ownLine_title sec)
  · exact hrule
  · exact passed_empty

theorem passed_or_entry {layout : Layout} {s : Setting} {entry i : Item}
    (h : i ∈ settingItems layout s entry) : Passed i ∨ i = entry := by
  cases layout with
  | verbose =>
    rcases List.mem_append.mp h with h | h
    · obtain ⟨t, ht, rfl⟩ := List.mem_map.mp h
      exact .inl (passed_comment (ownLine_help s t ht))
    · simp only [List.mem_cons, List.not_mem_nil, or_false] at h
      rcases h with rfl | rfl
      · exact .inr rfl
      · exact .inl passed_empty
  | minimal => exact .inr (List.mem_singleton.mp h)

theorem passed_end {layout : Layout} {i : Item} (h : i ∈ layout.endItems) : Passed i := by
  cases layout with
  | verbose => cases h
  | minimal => rw [List.mem_singleton.mp h]; exact passed_empty

/-! ## The whole document -/

/-- The items of a document that has the given one for each setting. -/
def documentItems (layout : Layout) (entry : Setting → Item) : List Item :=
  Section.all.flatMap fun sec =>
    headingItems sec ++ sec.settings.flatMap (fun s => settingItems layout s (entry s)) ++
      layout.endItems

theorem textOf_document (layout : Layout) (entry : Setting → Item) :
    textOf (documentItems layout entry) =
      Section.all.flatMap fun sec =>
        heading sec ++ sec.settings.flatMap (fun s => layout.setting s (ended (entry s).lines)) ++
          layout.sectionEnd := by
  unfold documentItems
  rw [textOf_flatMap]
  refine List.flatMap_congr fun sec _ => ?_
  rw [textOf_append, textOf_append, textOf_heading, textOf_flatMap, textOf_end]
  simp only [textOf_setting]

theorem passed_or_entry_of_document {layout : Layout} {entry : Setting → Item} {i : Item}
    (h : i ∈ documentItems layout entry) : Passed i ∨ ∃ s, i = entry s := by
  obtain ⟨sec, -, h⟩ := List.mem_flatMap.mp h
  rcases List.mem_append.mp h with h | h
  · rcases List.mem_append.mp h with h | h
    · exact .inl (passed_heading h)
    · obtain ⟨s, -, h⟩ := List.mem_flatMap.mp h
      exact (passed_or_entry h).imp_right fun he => ⟨s, he⟩
  · exact .inl (passed_end h)

/-- A document ends with the entry of its last setting and an empty line. -/
theorem documentItems_eq (layout : Layout) (entry : Setting → Item) :
    ∃ is, documentItems layout entry = is ++ [entry .setupVersionOutput, .skipped []] := by
  have hsec : Section.all = Section.all.dropLast ++ [.setup] := rfl
  have hset : Section.settings .setup =
      (Section.settings .setup).dropLast ++ [.setupVersionOutput] := rfl
  have hlast : ∃ js, settingItems layout .setupVersionOutput (entry .setupVersionOutput) ++
      layout.endItems = js ++ [entry .setupVersionOutput, .skipped []] := by
    cases layout with
    | verbose => exact ⟨_, List.append_nil _⟩
    | minimal => exact ⟨[], rfl⟩
  obtain ⟨js, hjs⟩ := hlast
  rw [documentItems, hsec, List.flatMap_append, List.flatMap_singleton, hset, List.flatMap_append,
    List.flatMap_singleton, List.append_assoc, List.append_assoc, hjs]
  exact ⟨_, by simp only [← List.append_assoc]; rfl⟩

/-- The key and the value that an item gives it. -/
def pair? (i : Item) : Option (Text × Text) := (i.entry? 0).map fun e => (e.key, e.value)

theorem pair?_passed {i : Item} (h : Passed i) : pair? i = none := by
  obtain ⟨l, rfl, -⟩ := h
  rfl

theorem map_entriesFrom (n : Nat) (items : List Item) :
    (Document.entriesFrom n items).map (fun e => (e.key, e.value)) = items.filterMap pair? := by
  induction items generalizing n with
  | nil => rfl
  | cons i items ih =>
    unfold Document.entriesFrom
    rw [List.map_append, ih]
    cases i <;> rfl

theorem filterMap_passed {items : List Item} (h : ∀ i ∈ items, Passed i) :
    items.filterMap pair? = [] := by
  rw [List.filterMap_eq_nil_iff]
  exact fun i hi => pair?_passed (h i hi)

theorem filterMap_setting (layout : Layout) (s : Setting) (entry : Item) :
    (settingItems layout s entry).filterMap pair? = (pair? entry).toList := by
  cases layout with
  | verbose =>
    unfold settingItems
    rw [List.filterMap_append, filterMap_passed]
    · cases h : pair? entry <;> simp [h, pair?_passed passed_empty]
    · intro i hi
      obtain ⟨t, ht, rfl⟩ := List.mem_map.mp hi
      exact passed_comment (ownLine_help s t ht)
  | minimal => cases h : pair? entry <;> simp [settingItems, h]

theorem filterMap_settings (layout : Layout) (entry : Setting → Item) (ss : List Setting) :
    (ss.flatMap fun s => settingItems layout s (entry s)).filterMap pair? =
      ss.filterMap fun s => pair? (entry s) := by
  rw [List.filterMap_flatMap, List.filterMap_eq_flatMap_toList]
  exact List.flatMap_congr fun s _ => filterMap_setting layout s (entry s)

/-- The items of a section. -/
def sectionItems (layout : Layout) (entry : Setting → Item) (sec : Section) : List Item :=
  headingItems sec ++ sec.settings.flatMap (fun s => settingItems layout s (entry s)) ++
    layout.endItems

theorem filterMap_sections (layout : Layout) (entry : Setting → Item) (secs : List Section) :
    (secs.flatMap (sectionItems layout entry)).filterMap pair? =
      (secs.flatMap Section.settings).filterMap fun s => pair? (entry s) := by
  rw [List.filterMap_flatMap, List.filterMap_flatMap]
  refine List.flatMap_congr fun sec _ => ?_
  rw [sectionItems, List.filterMap_append, List.filterMap_append,
    filterMap_passed fun _ => passed_heading, filterMap_passed fun _ => passed_end,
    filterMap_settings, List.nil_append, List.append_nil]

theorem filterMap_document (layout : Layout) (entry : Setting → Item) :
    (documentItems layout entry).filterMap pair? =
      Setting.all.filterMap fun s => pair? (entry s) :=
  filterMap_sections layout entry Section.all

end Layout

end Packaging
