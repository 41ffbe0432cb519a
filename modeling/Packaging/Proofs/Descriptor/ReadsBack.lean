import Packaging.Proofs.Descriptor.Values
import Packaging.Proofs.Document.Append

/-! One value, written in front of a document and read back. What was written takes only its own
lines and the document behind it stays what it is, as long as the document does not have the key.
A text is found again unless it starts with the mark of a block and no quotes are put around it; a
list is found again unless its single item would be cut. -/

namespace Packaging

open Text (Trimmed OwnLine)

namespace Document

/-! ## In front of a document -/

/-- An item is found first, and the entries behind it are moved on by its lines. -/
theorem ofLines_item_append {name : Text} {i : Item} {e : Entry} {ls : List Text} {doc : Document}
    (hi : i.Valid) (he : i.entry? 1 = some e) (h : ofLines name ls = .ok doc)
    (hkey : ∀ f ∈ doc.entries, f.folded ≠ e.folded) :
    ofLines name (i.lines ++ ls) =
      .ok ⟨name, i.lines ++ ls, e :: doc.entries.map (Entry.moved i.lines.length)⟩ := by
  obtain ⟨js, hjs, hd, rfl⟩ := ofLines_eq_ok_iff_cut.mp h
  have hcut : Cut i.lines [i] := by simpa using cut_nil.cons hi
  have hentries : entriesFrom 1 [i] = [e] := by simp [entriesFrom, he]
  have hcount : lineCount [i] = i.lines.length := by simp [lineCount]
  have hapart : Apart (entriesFrom 1 [i]) (entriesFrom 1 js) := by
    rw [hentries]
    exact List.forall_mem_singleton.mpr hkey
  have hone : ((entriesFrom 1 [i]).map Entry.folded).Nodup := by
    rw [hentries]
    exact List.nodup_singleton _
  rw [(ofLines_append_eq_ok_iff hcut hjs hone hd).mpr ⟨hapart, rfl⟩, hentries, hcount]
  rfl

theorem get?_of_first {doc : Document} {e : Entry} {es : List Entry} (h : doc.entries = e :: es)
    {key : Text} (hkey : e.key = key) : doc.get? key = some e.value := by
  rw [get?, entry?, h, List.find?_cons_of_pos]
  · rfl
  · show (e.folded == Text.lower key) = true
    rw [Entry.folded, hkey]
    exact beq_self_eq_true _

/-! ## Behind the mark of a block -/

/-- A value behind a mark ends before the next one, so it holds none. -/
theorem Item.Valid.not_mark {i : Item} (h : i.Valid) {line key t : Text} {more : List Text}
    (hl : i.lines = line :: more) (ha : Assigns line key (blockMark ++ t)) {n : Nat} :
    ∃ v, i.entry? n = some ⟨key, v, n⟩ ∧ ¬blockMark <:+: v := by
  cases h with
  | skipped hs =>
    obtain ⟨rfl, -⟩ := List.cons.inj hl
    exact absurd hs ha.1
  | entry ha' hv =>
    obtain ⟨rfl, -⟩ := List.cons.inj hl
    obtain ⟨rfl, rfl⟩ := ha.unique ha'
    refine ⟨_, rfl, ?_⟩
    cases hv with
    | plain hm _ => exact absurd (List.prefix_append _ _) hm
    | closed hb => exact fun hi => hb.not_infix (by decide) (hi.trans (Text.trim_infix _))
  | block ha' hf hb hc =>
    obtain ⟨rfl, -⟩ := List.cons.inj hl
    obtain ⟨rfl, ht⟩ := ha.unique ha'
    obtain rfl := List.append_cancel_left ht
    refine ⟨_, rfl, fun hi => ?_⟩
    obtain ⟨l, hm, hin⟩ := Text.exists_infix_of_intercalate (by decide) (by decide)
      (hi.trans (Text.trim_infix _))
    rcases List.mem_append.mp hm with hm | hm
    · rcases List.mem_cons.mp hm with rfl | hm
      · exact hf hin
      · exact hb l hm hin
    · obtain rfl := List.mem_singleton.mp hm
      exact hc.not_infix (by decide) hin

/-- If the first line assigns a value that starts with a mark, its key answers, but with a text
without marks. -/
theorem exists_get?_of_mark {name line key t : Text} {ls : List Text} {doc : Document}
    (ha : Assigns line key (blockMark ++ t)) (h : ofLines name (line :: ls) = .ok doc) :
    ∃ v, doc.get? key = some v ∧ ¬blockMark <:+: v := by
  obtain ⟨items, hc, -, rfl⟩ := ofLines_eq_ok_iff_cut.mp h
  cases items with
  | nil => cases hc.cover
  | cons i items =>
    obtain ⟨first, more, hl⟩ := List.exists_cons_of_ne_nil i.lines_ne_nil
    obtain rfl : first = line := by
      have hcover := hc.cover
      rw [List.flatMap_cons, hl] at hcover
      exact (List.cons.inj hcover).1
    obtain ⟨v, he, hv⟩ := (hc.valid i (List.mem_cons_self ..)).not_mark hl ha (n := 1)
    have hfirst : entriesFrom 1 (i :: items) =
        ⟨key, v, 1⟩ :: entriesFrom (1 + i.lines.length) items := by
      rw [entriesFrom, he]
      rfl
    exact ⟨v, get?_of_first (e := ⟨key, v, 1⟩) hfirst rfl, hv⟩

end Document

namespace Written

theorem clean_line_of_not_opensBlock {v : Text} (hv : IsLine .free v) (h : ¬OpensBlock v) :
    (line v).Clean :=
  ⟨.of_trimmed hv.feedless hv.trimmed, fun hm => h ((mark_quoted_iff hv.trimmed).mp hm)⟩

section

variable {s : Setting} {name rest : Text} {doc : Document}
  (h : Document.ofText name rest = .ok doc)
  (hkey : ∀ e ∈ doc.entries, e.folded ≠ Text.lower s.key)

include h hkey

/-- A clean value is read as one entry, and the document behind it as before. -/
theorem ofText_entry_append {w : Written} (hw : w.Clean) :
    Document.ofText name (w.entry s.key ++ rest) =
      .ok ⟨name, (w.item s.key).lines ++ doc.lines,
        ⟨s.key, w.value, 1⟩ :: doc.entries.map (Entry.moved (w.item s.key).lines.length)⟩ := by
  have hlines : doc.lines = Text.lines rest := by
    obtain ⟨items, -, -, rfl⟩ := Document.ofLines_eq_ok_iff_cut.mp h
    rfl
  rw [Document.ofText, ← ended_item,
    Text.lines_ended_append (ownLine_item s.isKey hw.ownLine), hlines]
  exact Document.ofLines_item_append (valid_item s.isKey hw) (entry?_item s.key w 1) h hkey

theorem exists_get?_entry_append {w : Written} (hw : w.Clean) :
    ∃ doc', Document.ofText name (w.entry s.key ++ rest) = .ok doc' ∧
      doc'.get? s.key = some w.value :=
  ⟨_, ofText_entry_append h hkey hw, Document.get?_of_first (e := ⟨s.key, w.value, 1⟩) rfl rfl⟩

end

/-! ## Texts -/

/-- A line that was written for a text that opens a block does not give the text back. -/
theorem get?_ne_of_opensBlock {key v more name : Text} (hk : IsKey key) (hv : IsLine .free v)
    (h : OpensBlock v) {doc : Document}
    (hdoc : Document.ofText name ((line v).entry key ++ more) = .ok doc) :
    doc.get? key ≠ some v := by
  have hown : ∀ l ∈ ((line v).item key).lines, OwnLine l :=
    ownLine_item hk (List.forall_mem_singleton.mpr (.of_trimmed hv.feedless hv.trimmed))
  have hlines : Text.lines ((line v).entry key ++ more) =
      assignment key (quoted v) :: Text.lines more := by
    rw [← ended_item, Text.lines_ended_append hown]
    rfl
  have hassigns := assigns_assignment hk (quoted v)
  obtain ⟨t, ht⟩ := h.1
  rw [(trimmed_quoted hv.trimmed).trim_eq, h.quoted_eq, ← ht] at hassigns
  rw [Document.ofText, hlines, h.quoted_eq, ← ht] at hdoc
  obtain ⟨w, hget, hw⟩ := Document.exists_get?_of_mark hassigns hdoc
  rw [hget]
  intro he
  exact hw (Option.some.inj he ▸ h.1.isInfix)

/-- Any text on one line is read back from one line, and nothing behind it is touched, unless it
opens a block: then it is not what is read, whether or not reading succeeds. -/
theorem line_reads_back {s : Setting} {v : Text} (hv : IsLine .free v) {name rest : Text}
    {doc : Document} (h : Document.ofText name rest = .ok doc)
    (hkey : ∀ e ∈ doc.entries, e.folded ≠ Text.lower s.key) :
    (¬OpensBlock v →
      Document.ofText name ((line v).entry s.key ++ rest) =
        .ok ⟨name, assignment s.key (quoted v) :: doc.lines,
          ⟨s.key, v, 1⟩ :: doc.entries.map (Entry.moved 1)⟩) ∧
    (OpensBlock v → ∀ doc', Document.ofText name ((line v).entry s.key ++ rest) = .ok doc' →
      doc'.get? s.key ≠ some v) := by
  constructor
  · intro ho
    have hread := ofText_entry_append h hkey (clean_line_of_not_opensBlock hv ho)
    rw [value_line_of_trimmed hv.trimmed] at hread
    exact hread
  · intro ho doc' hdoc'
    exact get?_ne_of_opensBlock s.isKey hv ho hdoc'

/-- The text of a document to stand behind others. -/
def publisherText : Text := "# publisher\nPublisherName = Me\n".toList

def publisherDocument : Document where
  name := []
  lines := ["# publisher", "PublisherName = Me"].map String.toList
  entries := [⟨"PublisherName".toList, "Me".toList, 2⟩]

theorem ofText_publisherText : Document.ofText [] publisherText = .ok publisherDocument := by
  decide +kernel

/-- The last quote brings a pair of single quotes around the text. -/
theorem line_reads_back_markedText :
    IsLine .free "\"\"\"x = #\"".toList ∧
    Document.ofText [] publisherText = .ok publisherDocument ∧
    (∀ e ∈ publisherDocument.entries, e.folded ≠ Text.lower Setting.appShortSummary.key) ∧
    ¬OpensBlock "\"\"\"x = #\"".toList ∧
    Document.ofText [] ((line "\"\"\"x = #\"".toList).entry Setting.appShortSummary.key ++
        publisherText) =
      .ok ⟨[], assignment Setting.appShortSummary.key "'\"\"\"x = #\"'".toList ::
          publisherDocument.lines,
        ⟨Setting.appShortSummary.key, "\"\"\"x = #\"".toList, 1⟩ ::
          publisherDocument.entries.map (Entry.moved 1)⟩ := by
  have hv : IsLine .free "\"\"\"x = #\"".toList := ⟨by decide, by decide, by decide, by decide⟩
  have hkey : ∀ e ∈ publisherDocument.entries,
      e.folded ≠ Text.lower Setting.appShortSummary.key := by decide +kernel
  have ho : ¬OpensBlock "\"\"\"x = #\"".toList := by decide +kernel
  exact ⟨hv, ofText_publisherText, hkey, ho,
    (line_reads_back hv ofText_publisherText hkey).1 ho⟩

/-- A text that a document gives to a setting, and that is written so that it opens a block which
does not end. -/
theorem opening_text_is_lost :
    (Document.ofText [] "AppShortSummary = '\"\"\"abc'".toList).toOption.bind
      (·.get? Setting.appShortSummary.key) = some "\"\"\"abc".toList ∧
    IsLine .free "\"\"\"abc".toList ∧
    Document.ofText [] ((line "\"\"\"abc".toList).entry Setting.appShortSummary.key) =
      .error ⟨1, .unclosedBlock⟩ :=
  ⟨by decide +kernel, ⟨by decide, by decide, by decide, by decide⟩, by decide +kernel⟩

/-! ## Lists -/

/-- A single item is the value, on a line or in a block. -/
theorem value_list_singleton_of_trimmed {i : Text} (hi : Trimmed i) : (list [i]).value = i := by
  by_cases hs : ';' ∈ i
  · rw [value_list_semicolon hs]
    show Text.trim ('\n' :: Text.ended [indented i]) = i
    rw [Text.trim_cons rfl, Text.ended_cons]
    show Text.trim (indented i ++ ['\n']) = i
    rw [Text.trim_concat rfl, trim_indented, hi.trim_eq]
  · rw [value_list_singleton hs, value_line_of_trimmed hi]

theorem items_eq_singleton_iff {i : Text} (hi : Trimmed i) (hne : i ≠ []) (hn : '\n' ∉ i) :
    Text.items i = [i] ↔ ';' ∉ i := by
  constructor
  · exact Text.not_mem_of_items_singleton hi
  · intro hs
    rw [items_of_plain hn hs, Text.kept_of_trimmed hi hne]

/-- A list of safe items is read back from any document that it stands in front of. A single item
comes back as what it is cut into, so a list is what it was unless its only item holds a
semicolon. -/
theorem list_reads_back {s : Setting} {is : List Text}
    (his : ∀ i ∈ is, Trimmed i ∧ i ≠ [] ∧ CharClass.fault? .safe i = none) {name rest : Text}
    {doc : Document} (h : Document.ofText name rest = .ok doc)
    (hkey : ∀ e ∈ doc.entries, e.folded ≠ Text.lower s.key) :
    ∃ doc' t, Document.ofText name ((list is).entry s.key ++ rest) = .ok doc' ∧
      doc'.get? s.key = some t ∧
      (∀ i, is = [i] → Text.items (Text.trim t) = Text.items i) ∧
      (Text.items (Text.trim t) = is ↔ ∀ i, is = [i] → ';' ∉ i) := by
  have hline : ∀ i ∈ is, IsLine .safe i := fun i hi =>
    ⟨(his i hi).1, (his i hi).2.1, feedless_of_safe (his i hi).2.2, (his i hi).2.2⟩
  have hclean : (list is).Clean := clean_list (fun i hi => (hline i hi).feedless)
    (fun i hi => (hline i hi).trimmed) fun i hi => Kind.quoteless_of_isLine (hline i hi)
  have hsingle : ∀ i, is = [i] → Text.items (Text.trim (list is).value) = Text.items i := by
    intro i hi
    subst hi
    have ht := (hline i (List.mem_singleton.mpr rfl)).trimmed
    rw [value_list_singleton_of_trimmed ht, ht.trim_eq]
  obtain ⟨doc', hread, hget⟩ := exists_get?_entry_append h hkey hclean
  refine ⟨doc', _, hread, hget, hsingle, ?_⟩
  constructor
  · intro hitems i hi
    rw [hsingle i hi, hi] at hitems
    have hi' := hline i (by rw [hi]; exact List.mem_singleton.mpr rfl)
    exact (items_eq_singleton_iff hi'.trimmed hi'.ne_nil hi'.feedless).mp hitems
  · exact items_value_list (fun i hi => (hline i hi).feedless) (fun i hi => (hline i hi).trimmed)
      fun i hi => (hline i hi).ne_nil

/-- Two safe items, one of which holds a semicolon. -/
def twoItems : List Text := ["a;b".toList, "# c = 'd'".toList]

theorem list_reads_back_twoItems :
    (∀ i ∈ twoItems, Trimmed i ∧ i ≠ [] ∧ CharClass.fault? .safe i = none) ∧
    Document.ofText [] publisherText = .ok publisherDocument ∧
    (∀ e ∈ publisherDocument.entries, e.folded ≠ Text.lower Setting.flatpakFinishArgs.key) ∧
    ∃ doc' t, Document.ofText [] ((list twoItems).entry Setting.flatpakFinishArgs.key ++
        publisherText) = .ok doc' ∧
      doc'.get? Setting.flatpakFinishArgs.key = some t ∧ Text.items (Text.trim t) = twoItems := by
  have hitems : ∀ i ∈ twoItems, Trimmed i ∧ i ≠ [] ∧ CharClass.fault? .safe i = none := by
    decide +kernel
  have hkey : ∀ e ∈ publisherDocument.entries,
      e.folded ≠ Text.lower Setting.flatpakFinishArgs.key := by decide +kernel
  obtain ⟨doc', t, hread, hget, -, hiff⟩ := list_reads_back hitems ofText_publisherText hkey
  exact ⟨hitems, ofText_publisherText, hkey, doc', t, hread, hget,
    hiff.mpr fun i hi => by cases hi⟩

/-- The only item of a list stands in a block because of its semicolon, and is cut there. -/
theorem single_item_is_cut :
    (∀ i ∈ ["a;b".toList], Trimmed i ∧ i ≠ [] ∧ CharClass.fault? .safe i = none) ∧
    ((Document.ofText [] ((list ["a;b".toList]).entry Setting.iconFiles.key)).toOption.bind
      (·.get? Setting.iconFiles.key)).map (fun t => Text.items (Text.trim t)) =
        some ["a".toList, "b".toList] :=
  ⟨by decide +kernel, by decide +kernel⟩

end Written

end Packaging
