import Packaging.Proofs.Descriptor.Texts
import Packaging.Proofs.Document.Pairs

/-! The parts of a written document: what stands in front of the summary, between it and the
description, and behind the description. The layouts differ in lines around the entries that are
passed over outside of blocks, and hold no mark that would end one; the entries are the same. -/

namespace Packaging

open Document (Item)
open Text (OwnLine)

namespace Layout

/-! ## The parts -/

def ahead (layout : Layout) (s : Setting) : List Item :=
  match layout with
  | .verbose => s.declaration.help.map commentItem
  | .minimal => []

def behind : Layout → List Item
  | .verbose => [.skipped []]
  | .minimal => []

theorem settingItems_eq (layout : Layout) (s : Setting) (entry : Item) :
    settingItems layout s entry = layout.ahead s ++ entry :: layout.behind := by
  cases layout <;> rfl

/-- The settings in front of the free text, and those behind it in its section. -/
def frontSettings : List Setting := [.appBaseName, .appFriendlyName, .appId, .appVersionRelease]

def backSettings : List Setting := [.appLicenseId, .appLicenseFile, .appChangeFile]

/-- What stands in front of the summary. -/
def frontItems (layout : Layout) (entry : Setting → Item) : List Item :=
  headingItems .app ++ frontSettings.flatMap (fun s => settingItems layout s (entry s)) ++
    layout.ahead .appShortSummary

/-- What stands between the summary and the description. -/
def betweenItems (layout : Layout) : List Item := layout.behind ++ layout.ahead .appDescription

/-- What stands behind the description. -/
def backItems (layout : Layout) (entry : Setting → Item) : List Item :=
  layout.behind ++ backSettings.flatMap (fun s => settingItems layout s (entry s)) ++
    layout.endItems ++ Section.all.tail.flatMap (sectionItems layout entry)

theorem documentItems_parts (layout : Layout) (entry : Setting → Item) :
    documentItems layout entry =
      frontItems layout entry ++ entry .appShortSummary ::
        (betweenItems layout ++ entry .appDescription :: backItems layout entry) := by
  have hsec : documentItems layout entry =
      sectionItems layout entry .app ++ Section.all.tail.flatMap (sectionItems layout entry) := rfl
  have hset : Section.settings .app =
      frontSettings ++ .appShortSummary :: .appDescription :: backSettings := rfl
  rw [hsec, sectionItems, hset, List.flatMap_append, List.flatMap_cons, List.flatMap_cons,
    settingItems_eq layout .appShortSummary, settingItems_eq layout .appDescription, frontItems,
    betweenItems, backItems]
  simp only [List.append_assoc, List.cons_append]

/-! ## What stands around entries -/

/-- The item is passed over outside of blocks and taken in inside of one. -/
def Silent (i : Item) : Prop := Passed i ∧ ∀ l ∈ i.lines, ¬Document.blockMark <:+: l

theorem Silent.valid {i : Item} (h : Silent i) : i.Valid := by
  obtain ⟨⟨l, rfl, hl, -⟩, -⟩ := h
  exact .skipped hl

theorem quoteless_of_literal {s : String} {l : Text} (hs : s = String.ofList l) (h : '"' ∉ l) :
    '"' ∉ s.toList := by
  rwa [hs, String.toList_ofList]

theorem quoteless_help (s : Setting) : ∀ t ∈ s.declaration.help, '"' ∉ t.toList := by
  cases s <;>
    simp only [List.forall_mem_cons, List.not_mem_nil, false_implies, implies_true, and_true] <;>
    first
    | exact quoteless_of_literal rfl (by decide +kernel)
    | exact ⟨quoteless_of_literal rfl (by decide +kernel),
        quoteless_of_literal rfl (by decide +kernel)⟩

theorem quoteless_title (sec : Section) : '"' ∉ sec.title.toList := by
  cases sec <;> exact quoteless_of_literal rfl (by decide +kernel)

theorem silent_of_quoteless {l : Text} (hp : Passed (.skipped l)) (h : '"' ∉ l) :
    Silent (.skipped l) := by
  refine ⟨hp, fun m hm => ?_⟩
  rw [List.mem_singleton.mp hm]
  exact not_mark_of_quoteless h

theorem silent_empty : Silent (.skipped []) := silent_of_quoteless passed_empty nofun

theorem silent_comment {t : String} (ho : OwnLine t.toList) (hq : '"' ∉ t.toList) :
    Silent (commentItem t) := silent_of_quoteless (passed_comment ho) (by simpa using hq)

theorem silent_heading {sec : Section} {i : Item} (h : i ∈ headingItems sec) : Silent i := by
  have hpassed := passed_heading h
  simp only [headingItems, List.mem_cons, List.not_mem_nil, or_false] at h
  rcases h with rfl | rfl | rfl | rfl
  · exact silent_of_quoteless hpassed (by decide)
  · exact silent_comment (ownLine_title sec) (quoteless_title sec)
  · exact silent_of_quoteless hpassed (by decide)
  · exact silent_empty

theorem silent_ahead {layout : Layout} {s : Setting} {i : Item} (h : i ∈ layout.ahead s) :
    Silent i := by
  cases layout with
  | verbose =>
    obtain ⟨t, ht, rfl⟩ := List.mem_map.mp h
    exact silent_comment (ownLine_help s t ht) (quoteless_help s t ht)
  | minimal => cases h

theorem silent_behind {layout : Layout} {i : Item} (h : i ∈ layout.behind) : Silent i := by
  cases layout with
  | verbose =>
    rw [List.mem_singleton.mp h]
    exact silent_empty
  | minimal => cases h

theorem silent_end {layout : Layout} {i : Item} (h : i ∈ layout.endItems) : Silent i := by
  cases layout with
  | verbose => cases h
  | minimal =>
    rw [List.mem_singleton.mp h]
    exact silent_empty

theorem silent_between {layout : Layout} {i : Item} (h : i ∈ layout.betweenItems) : Silent i :=
  (List.mem_append.mp h).elim silent_behind silent_ahead

section

variable {layout : Layout} {entry : Setting → Item} {i : Item}

theorem silent_or_entry_of_settings {ss : List Setting}
    (h : i ∈ ss.flatMap fun s => settingItems layout s (entry s)) :
    Silent i ∨ ∃ s ∈ ss, i = entry s := by
  obtain ⟨s, hs, h⟩ := List.mem_flatMap.mp h
  rw [settingItems_eq, List.mem_append, List.mem_cons] at h
  rcases h with h | h | h
  · exact .inl (silent_ahead h)
  · exact .inr ⟨s, hs, h⟩
  · exact .inl (silent_behind h)

theorem silent_or_entry_of_sections {secs : List Section}
    (h : i ∈ secs.flatMap (sectionItems layout entry)) :
    Silent i ∨ ∃ s ∈ secs.flatMap Section.settings, i = entry s := by
  obtain ⟨sec, hsec, h⟩ := List.mem_flatMap.mp h
  rw [sectionItems, List.mem_append, List.mem_append] at h
  rcases h with (h | h) | h
  · exact .inl (silent_heading h)
  · refine (silent_or_entry_of_settings h).imp_right fun hs => ?_
    obtain ⟨s, hs, he⟩ := hs
    exact ⟨s, List.mem_flatMap.mpr ⟨sec, hsec, hs⟩, he⟩
  · exact .inl (silent_end h)

theorem silent_or_entry_of_front (h : i ∈ frontItems layout entry) :
    Silent i ∨ ∃ s ∈ frontSettings, i = entry s := by
  rw [frontItems, List.mem_append, List.mem_append] at h
  rcases h with (h | h) | h
  · exact .inl (silent_heading h)
  · exact silent_or_entry_of_settings h
  · exact .inl (silent_ahead h)

/-- The settings behind the description. -/
def restSettings : List Setting := backSettings ++ Section.all.tail.flatMap Section.settings

theorem silent_or_entry_of_back (h : i ∈ backItems layout entry) :
    Silent i ∨ ∃ s ∈ restSettings, i = entry s := by
  simp only [backItems, List.mem_append] at h
  simp only [restSettings, List.mem_append]
  rcases h with ((h | h) | h) | h
  · exact .inl (silent_behind h)
  · exact (silent_or_entry_of_settings h).imp_right fun ⟨s, hs, he⟩ => ⟨s, .inl hs, he⟩
  · exact .inl (silent_end h)
  · exact (silent_or_entry_of_sections h).imp_right fun ⟨s, hs, he⟩ => ⟨s, .inr hs, he⟩

end

theorem not_isFree_of_front {s : Setting} (h : s ∈ frontSettings) : ¬s.kind.IsFree := by
  rw [Setting.isFree_iff]
  revert s
  decide

theorem not_isFree_of_rest {s : Setting} (h : s ∈ restSettings) : ¬s.kind.IsFree := by
  rw [Setting.isFree_iff]
  revert s
  decide

/-! ## Keys and values -/

theorem pairs_entriesFrom (n : Nat) (items : List Item) :
    Document.pairs (Document.entriesFrom n items) = items.filterMap pair? := map_entriesFrom n items

theorem filterMap_silent {items : List Item} (h : ∀ i ∈ items, Silent i) :
    items.filterMap pair? = [] := filterMap_passed fun i hi => (h i hi).1

theorem filterMap_front (layout : Layout) (entry : Setting → Item) :
    (frontItems layout entry).filterMap pair? =
      frontSettings.filterMap fun s => pair? (entry s) := by
  simp only [frontItems, List.filterMap_append, filterMap_silent fun _ => silent_heading,
    filterMap_silent fun _ => silent_ahead, filterMap_settings, List.nil_append, List.append_nil]

theorem filterMap_back (layout : Layout) (entry : Setting → Item) :
    (backItems layout entry).filterMap pair? =
      restSettings.filterMap fun s => pair? (entry s) := by
  simp only [backItems, restSettings, List.filterMap_append, filterMap_silent fun _ => silent_end,
    filterMap_silent fun _ => silent_behind, filterMap_settings, filterMap_sections,
    List.nil_append, List.append_nil]

end Layout

end Packaging
