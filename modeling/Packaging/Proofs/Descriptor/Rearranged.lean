import Packaging.Proofs.Descriptor.RoundTrip
import Packaging.Proofs.Document.Rearranged

/-! The layout of a document makes no difference to what is read from it. Settings are found by
their keys, in any case and wherever they stand; so a document whose chunks change their places,
whose comments come and go and whose keys are written in another case is refused for the same fault,
or gives the same values. Only the unknown keys are kept as they are written, in their order. -/

namespace Packaging

open Document (Item answers ofLines Edits Edited)

namespace Descriptor

/-- The descriptors are the same, but for the order and the case of their unknown keys. -/
structure Alike (d e : Descriptor) : Prop where
  base : d.base = e.base
  value : d.value = e.value
  unknown : (d.unknown.map Text.lower).Perm (e.unknown.map Text.lower)

/-- Whether a key is one of a setting is seen from its lower case. -/
theorem lower_unknownKeys (doc : Document) :
    (unknownKeys doc).map Text.lower =
      ((answers doc.entries).map Prod.fst).filter fun key =>
        !Setting.all.any fun s => Text.lower s.key == key := by
  rw [Document.map_fst_answers, List.filter_map, unknownKeys, List.filter_map, List.map_map]
  rfl

/-- Documents that answer alike are refused alike, or give the same descriptor. -/
theorem ofDocument_of_perm {doc doc' : Document} (hd : (doc.entries.map Entry.folded).Nodup)
    (h : (answers doc.entries).Perm (answers doc'.entries)) (base : Path) (check : PathCheck) :
    (∃ f, ofDocument doc base check = .error f ∧ ofDocument doc' base check = .error f) ∨
      ∃ d e, ofDocument doc base check = .ok d ∧ ofDocument doc' base check = .ok e ∧
        d.Alike e := by
  have hunknown : ((unknownKeys doc).map Text.lower).Perm
      ((unknownKeys doc').map Text.lower) := by
    rw [lower_unknownKeys, lower_unknownKeys]
    exact (h.map Prod.fst).filter _
  simp only [ofDocument, Setting.read_congr (Document.get?_of_perm hd h)]
  cases Setting.collect fun s => s.read doc' base.normal check with
  | error f => exact .inl ⟨f, rfl, rfl⟩
  | ok g => exact .inr ⟨_, _, rfl, rfl, rfl, rfl, hunknown⟩

/-- Chunks of lines that are accepted one by one and as a whole are accepted in any order, with keys
in another case and with lines to skip put in or left out, and the same is read from them. -/
theorem rearranged_reads_alike {name name' : Text} {chunks order : List (List Text)}
    {lines : List Text} {doc : Document}
    (hchunks : ∀ c ∈ chunks, ∃ part, ofLines name c = .ok part)
    (hdoc : ofLines name chunks.flatten = .ok doc) (hperm : chunks.Perm order)
    (hedit : Edited order.flatten lines) :
    ∃ doc', ofLines name' lines = .ok doc' ∧ ∀ base check,
      (∃ f, ofDocument doc base check = .error f ∧ ofDocument doc' base check = .error f) ∨
        ∃ d e, ofDocument doc base check = .ok d ∧ ofDocument doc' base check = .ok e ∧
          d.Alike e := by
  obtain ⟨doc', hdoc', hd, hp⟩ := Document.exists_rearranged hchunks hdoc hperm hedit
  exact ⟨doc', hdoc', ofDocument_of_perm hd hp⟩

end Descriptor

/-! ## Chunks that are turned around -/

theorem Written.rekeyed_item {key key' : Text} (h : Text.lower key' = Text.lower key)
    (w : Written) : (w.item key).Rekeyed (w.item key') := by
  unfold item
  cases w.laid with
  | line t => exact .entry ⟨[], _, Text.allBlank_nil, rfl, rfl⟩ h
  | list ts => exact .block ⟨[], _, Text.allBlank_nil, rfl, rfl⟩ h

namespace Descriptor

def mandatoryValues : List (Setting × Text) :=
  [(.appBaseName, "App".toList), (.appFriendlyName, "App".toList), (.appId, "org.app".toList),
   (.appVersionRelease, "1.0".toList), (.appShortSummary, "An app".toList),
   (.appLicenseId, "MIT".toList), (.publisherName, "Me".toList)]

def mandatoryItems : List Item := mandatoryValues.map fun p => Written.item p.1.key (.line p.2)

def twoLines : Written := .list ["First".toList, "Second".toList]

/-- The mandatory values behind a comment, a block, and an entry of no setting. -/
def plainChunks : List (List Item) :=
  [.skipped "# An app".toList :: mandatoryItems, [twoLines.item "AppDescription".toList],
   [Written.item "Extra".toList (.line "1".toList)]]

/-- The chunks from the last to the first, with keys in another case and another line to skip. -/
def turnedItems : List Item :=
  Written.item "EXTRA".toList (.line "1".toList) :: .skipped [] ::
    twoLines.item "appdescription".toList :: mandatoryItems

theorem valid_plainChunks : ∀ is ∈ plainChunks, ∀ i ∈ is, i.Valid := by
  have hlines : ∀ p ∈ mandatoryValues, ('\n' ∉ p.2 ∧ p.2.getLast? ≠ some '\r') ∧
      ¬Document.blockMark <+: Text.trim (Written.quoted p.2) := by decide +kernel
  have hmandatory : ∀ i ∈ mandatoryItems, i.Valid := fun i hi => by
    obtain ⟨p, hp, rfl⟩ := List.mem_map.mp hi
    obtain ⟨⟨hfeed, hlast⟩, hmark⟩ := hlines p hp
    exact Written.valid_item p.1.isKey ⟨⟨hfeed, hlast⟩, hmark⟩
  have htwo : twoLines.Clean := by
    intro t ht
    rcases List.mem_pair.mp ht with rfl | rfl
    · exact ⟨⟨by decide, by decide⟩, by decide⟩
    · exact ⟨⟨by decide, by decide⟩, by decide⟩
  have hextra : (Written.item "Extra".toList (.line "1".toList)).Valid :=
    Written.valid_item (IsKey.of_literal rfl (by decide +kernel))
      ⟨⟨by decide, by decide⟩, by decide⟩
  simp only [plainChunks, List.forall_mem_cons, List.not_mem_nil, false_implies, implies_true,
    and_true]
  exact ⟨⟨.skipped (.inr (.inl (by decide +kernel))), hmandatory⟩,
    Written.valid_item (Setting.isKey .appDescription) htwo, hextra⟩

def plainDocument : Document where
  name := []
  lines := (plainChunks.map (·.flatMap Item.lines)).flatten
  entries := Document.entriesFrom 1 plainChunks.flatten

theorem rearranged_reads_alike_plainChunks :
    ofLines [] plainDocument.lines = .ok plainDocument ∧
      ∃ doc, ofLines [] (turnedItems.flatMap Item.lines) = .ok doc ∧
        ∃ d e, ofDocument plainDocument ⟨[]⟩ .off = .ok d ∧ ofDocument doc ⟨[]⟩ .off = .ok e ∧
          d.Alike e := by
  have hvalid : ∀ i ∈ plainChunks.flatten, i.Valid := fun i hi => by
    obtain ⟨is, his, hi⟩ := List.mem_flatten.mp hi
    exact valid_plainChunks is his i hi
  have hdoc : ofLines [] plainDocument.lines = .ok plainDocument :=
    Document.ofLines_eq_ok_iff_cut.mpr
      ⟨_, ⟨by simp [plainDocument, plainChunks], hvalid⟩, by decide +kernel, rfl⟩
  have hchunks : ∀ c ∈ plainChunks.map (·.flatMap Item.lines),
      ∃ part, ofLines [] c = .ok part := by
    have hnodup : ∀ is ∈ plainChunks,
        ((Document.entriesFrom 1 is).map Entry.folded).Nodup := by decide +kernel
    intro c hc
    obtain ⟨is, his, rfl⟩ := List.mem_map.mp hc
    exact ⟨_, Document.ofLines_eq_ok_iff_cut.mpr
      ⟨is, ⟨rfl, valid_plainChunks is his⟩, hnodup is his, rfl⟩⟩
  have hedit : Edited (plainChunks.map (·.flatMap Item.lines)).reverse.flatten
      (turnedItems.flatMap Item.lines) := by
    refine ⟨plainChunks.reverse.flatten, turnedItems,
      ⟨by simp [plainChunks], fun i hi => ?_⟩, ?_, rfl⟩
    · obtain ⟨is, his, hi⟩ := List.mem_flatten.mp hi
      exact valid_plainChunks is (List.mem_reverse.mp his) i hi
    · exact .rekey (Written.rekeyed_item (by decide +kernel) _) (.add (.inl rfl)
        (.rekey (Written.rekeyed_item (by decide +kernel) _) (.drop _ (.refl _))))
  have hnone : Setting.firstFault?
      (fun s => s.read plainDocument (Path.normal ⟨[]⟩) .off) = none := by decide +kernel
  obtain ⟨d, hd⟩ := exists_ofDocument (Setting.isOk_of_firstFault?_eq_none hnone)
  obtain ⟨doc, hdoc', hread⟩ :=
    rearranged_reads_alike hchunks hdoc (List.reverse_perm _).symm hedit
  refine ⟨hdoc, doc, hdoc', ?_⟩
  rcases hread ⟨[]⟩ .off with ⟨f, hf, -⟩ | h
  · rw [hd] at hf
    cases hf
  · exact h

end Descriptor

end Packaging
