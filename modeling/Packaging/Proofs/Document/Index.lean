import Packaging.Proofs.Document.Append
import Packaging.Proofs.Document.Rearranged

/-! The index of a document. Entries are taken in one by one, each with its place under its folded
key, and an entry whose key has a place already is refused. What is kept by one entry more is that
the places are those of the entries; so in the end the index finds for every key what a search
through the entries finds, and each entry stands where its line number says. -/

namespace Packaging.Document

/-- Keys are hashed as strings are. -/
local instance hashableKey : Hashable Text := ⟨fun t => hash (String.ofList t)⟩

/-- Entries in their order, and the place of each of them under its folded key. -/
structure Index where
  entries : List Entry
  places : Std.HashMap Text Nat

namespace Index

def empty : Index := ⟨[], ∅⟩

def entry? (x : Index) (key : Text) : Option Entry :=
  x.places[Text.lower key]?.bind fun i => x.entries[i]?

def contains (x : Index) (key : Text) : Bool := x.places.contains (Text.lower key)

/-- The entry behind the others, unless its key has a place. -/
def insert (x : Index) (e : Entry) : Except LineError Index :=
  match x.entry? e.key with
  | some first => .error ⟨e.line, .repeatedKey e.key first.line⟩
  | none => .ok ⟨x.entries ++ [e], x.places.insert e.folded x.entries.length⟩

def insertAll (x : Index) (es : List Entry) : Except LineError Index := es.foldlM insert x

/-- The index of the lines. A key that comes twice is found before any fault on a later line. -/
def ofLines (lines : List Text) : Except LineError Index :=
  match empty.insertAll (scan 1 lines).1, (scan 1 lines).2 with
  | .error e, _ => .error e
  | .ok _, some e => .error e
  | .ok x, none => .ok x

/-! ## One entry -/

theorem getElem?_concat_iff {es : List Entry} {e f : Entry} {i : Nat} :
    (es ++ [e])[i]? = some f ↔ es[i]? = some f ∨ i = es.length ∧ e = f := by
  rcases Nat.lt_trichotomy i es.length with hi | rfl | hi
  · rw [List.getElem?_append_left hi]
    simp [Nat.ne_of_lt hi]
  · simp
  · rw [List.getElem?_eq_none (by simp; omega), List.getElem?_eq_none (by omega)]
    simp [Nat.ne_of_gt hi]

/-- A key has a place if and only if the entry there folds to it. -/
def Consistent (x : Index) : Prop :=
  ∀ key i, x.places[key]? = some i ↔ ∃ e : Entry, x.entries[i]? = some e ∧ e.folded = key

theorem consistent_empty : empty.Consistent := fun key i => by simp [empty]

section

variable {x : Index} (h : x.Consistent)
include h

theorem Consistent.entry?_eq_some_iff {key : Text} {e : Entry} :
    x.entry? key = some e ↔ e ∈ x.entries ∧ e.folded = Text.lower key := by
  unfold entry?
  rw [Option.bind_eq_some_iff, List.mem_iff_getElem?]
  constructor
  · rintro ⟨i, hi, he⟩
    obtain ⟨f, hf, hkey⟩ := (h _ i).mp hi
    obtain rfl : f = e := Option.some.inj (hf.symm.trans he)
    exact ⟨⟨i, he⟩, hkey⟩
  · rintro ⟨⟨i, he⟩, hkey⟩
    exact ⟨i, (h _ i).mpr ⟨e, he, hkey⟩, he⟩

theorem Consistent.entry?_eq_none_iff {key : Text} :
    x.entry? key = none ↔ ∀ e ∈ x.entries, e.folded ≠ Text.lower key := by
  rw [Option.eq_none_iff_forall_ne_some]
  exact ⟨fun hn e he hkey => hn e (h.entry?_eq_some_iff.mpr ⟨he, hkey⟩),
    fun hn e he => hn e (h.entry?_eq_some_iff.mp he).1 (h.entry?_eq_some_iff.mp he).2⟩

theorem Consistent.contains_eq (key : Text) : x.contains key = (x.entry? key).isSome := by
  unfold contains entry?
  rw [← Std.HashMap.isSome_getElem?_eq_contains]
  cases hp : x.places[Text.lower key]? with
  | none => rfl
  | some i =>
    obtain ⟨e, he, -⟩ := (h _ i).mp hp
    simp [he]

theorem Consistent.nodup : (x.entries.map Entry.folded).Nodup := by
  rw [List.nodup_iff_getElem?_ne_getElem?]
  intro i j hij hj heq
  simp only [List.length_map] at hj
  have hi : i < x.entries.length := Nat.lt_trans hij hj
  simp only [List.getElem?_map, List.getElem?_eq_getElem hi, List.getElem?_eq_getElem hj,
    Option.map_some, Option.some.injEq] at heq
  have hpi := (h _ i).mpr ⟨_, List.getElem?_eq_getElem hi, rfl⟩
  have hpj := (h _ j).mpr ⟨_, List.getElem?_eq_getElem hj, rfl⟩
  rw [heq, hpj] at hpi
  exact Nat.ne_of_gt hij (Option.some.inj hpi)

/-- The places stay those of the entries if the key of the new one has none. -/
theorem Consistent.concat {e : Entry} (hn : x.entry? e.key = none) :
    Consistent ⟨x.entries ++ [e], x.places.insert e.folded x.entries.length⟩ := by
  intro key i
  simp only [Std.HashMap.getElem?_insert, beq_iff_eq, getElem?_concat_iff]
  by_cases hkey : e.folded = key
  · rw [if_pos hkey, Option.some.injEq]
    constructor
    · rintro rfl
      exact ⟨e, .inr ⟨rfl, rfl⟩, hkey⟩
    · rintro ⟨f, hf | ⟨rfl, -⟩, hfkey⟩
      · have hne := h.entry?_eq_none_iff.mp hn f (List.mem_of_getElem? hf)
        exact absurd (hfkey.trans hkey.symm) hne
      · rfl
  · rw [if_neg hkey, h key i]
    constructor
    · rintro ⟨f, hf, hfkey⟩
      exact ⟨f, .inl hf, hfkey⟩
    · rintro ⟨f, hf | ⟨-, rfl⟩, hfkey⟩
      · exact ⟨f, hf, hfkey⟩
      · exact absurd hfkey hkey

/-- An entry is taken in, or is the first whose key was there before. -/
theorem Consistent.insert_cases (e : Entry) :
    (∃ y, x.insert e = .ok y ∧ y.Consistent ∧ y.entries = x.entries ++ [e] ∧
      ∀ es, repeated? (seenOf x.entries) (e :: es) = repeated? (seenOf y.entries) es) ∨
    ∃ err, x.insert e = .error err ∧ ∀ es, repeated? (seenOf x.entries) (e :: es) = some err := by
  unfold insert
  cases hx : x.entry? e.key with
  | none =>
    left
    refine ⟨_, rfl, h.concat hx, rfl, fun es => ?_⟩
    have hfind : (seenOf x.entries).find? (·.1 == e.folded) = none :=
      find?_seenOf_eq_none (h.entry?_eq_none_iff.mp hx)
    have hseen : seenOf (x.entries ++ [e]) = (e.folded, e.line) :: seenOf x.entries := by
      simp [seenOf]
    rw [repeated?, hseen]
    simp only [hfind]
  | some first =>
    right
    obtain ⟨hmem, hkey⟩ := h.entry?_eq_some_iff.mp hx
    have hfind := find?_seenOf_of_mem h.nodup hmem
    rw [show first.folded = e.folded from hkey] at hfind
    refine ⟨_, rfl, fun es => ?_⟩
    rw [repeated?]
    simp only [hfind]

/-! ## All entries -/

/-- Entries are taken in one after the other, up to the first whose key was there before. -/
theorem Consistent.insertAll_cases (es : List Entry) :
    (∃ y, x.insertAll es = .ok y ∧ y.Consistent ∧ y.entries = x.entries ++ es ∧
      repeated? (seenOf x.entries) es = none) ∨
    ∃ err, x.insertAll es = .error err ∧ repeated? (seenOf x.entries) es = some err := by
  induction es generalizing x with
  | nil => exact .inl ⟨x, rfl, h, (List.append_nil _).symm, rfl⟩
  | cons e es ih =>
    have hstep : x.insertAll (e :: es) = x.insert e >>= fun y => y.insertAll es := rfl
    rcases h.insert_cases e with ⟨y, hi, hy, he, hr⟩ | ⟨err, hi, hr⟩
    · rw [hstep, hi, hr es]
      rcases ih hy with ⟨z, hz, hzc, hze, hzr⟩ | ⟨err, hz, hzr⟩
      · exact .inl ⟨z, hz, hzc, by rw [hze, he, List.append_assoc]; rfl, hzr⟩
      · exact .inr ⟨err, hz, hzr⟩
    · rw [hstep, hi]
      exact .inr ⟨err, rfl, hr es⟩

end

/-- A document holds the entries of the index of its lines, and is refused where that is. -/
theorem ofLines_cases (name : Text) (lines : List Text) :
    (∃ x, ofLines lines = .ok x ∧ x.Consistent ∧
      Document.ofLines name lines = .ok ⟨name, lines, x.entries⟩) ∨
    ∃ e, ofLines lines = .error e ∧ Document.ofLines name lines = .error e := by
  unfold Document.ofLines ofLines
  rcases consistent_empty.insertAll_cases (scan 1 lines).1 with ⟨x, hi, hx, he, hr⟩ | ⟨e, hi, hr⟩
  · have hr : repeated? [] (scan 1 lines).1 = none := hr
    have he : x.entries = (scan 1 lines).1 := he
    simp only [hi, hr, Option.none_or]
    cases (scan 1 lines).2 with
    | none => exact .inl ⟨x, rfl, hx, by rw [he]⟩
    | some e => exact .inr ⟨e, rfl, rfl⟩
  · have hr : repeated? [] (scan 1 lines).1 = some e := hr
    simp only [hi, hr, Option.some_or]
    exact .inr ⟨e, rfl, rfl⟩

theorem Consistent.entry?_eq {x : Index} (h : x.Consistent) (name : Text) (lines : List Text)
    (key : Text) : x.entry? key = Document.entry? ⟨name, lines, x.entries⟩ key := by
  refine Option.ext fun e => ?_
  rw [h.entry?_eq_some_iff]
  constructor
  · rintro ⟨he, hkey⟩
    have hfound : Document.entry? ⟨name, lines, x.entries⟩ e.key = some e :=
      entry?_of_mem h.nodup he
    unfold Document.entry? at hfound ⊢
    rwa [show Text.lower e.key = Text.lower key from hkey] at hfound
  · intro he
    exact ⟨List.mem_of_find?_eq_some he, by simpa using List.find?_some he⟩

end Index

/-! ## Lines of entries -/

/-- The key stands on the line of the entry, before the first `=`. -/
def StandsOn (lines : List Text) (e : Entry) : Prop :=
  1 ≤ e.line ∧ e.line ≤ lines.length ∧
    ∃ k v, lines[e.line - 1]? = some (k ++ '=' :: v) ∧ '=' ∉ k ∧ Text.trim k = e.key

/-- The entries of later items stand on later lines. -/
theorem lines_strictly_increase (n : Nat) (items : List Item) :
    ((entriesFrom n items).map Entry.line).Pairwise (· < ·) := by
  induction items generalizing n with
  | nil => exact .nil
  | cons i items ih =>
    have hpos : 0 < i.lines.length := List.length_pos_iff.mpr i.lines_ne_nil
    rw [entriesFrom, List.map_append, List.pairwise_append]
    refine ⟨?_, ih _, ?_⟩
    · cases i.entry? n <;> simp
    · simp only [List.forall_mem_map]
      intro e he f hf
      have := Item.line_of_entry? (Option.mem_toList.mp he)
      have := line_of_mem_entriesFrom hf
      omega

/-- The line gives the value to its key as it is, without being trimmed first. -/
theorem Assigns.exists_split {line key v : Text} (h : Assigns line key v) :
    ∃ k w, line = k ++ '=' :: w ∧ '=' ∉ k ∧ Text.trim k = key := by
  obtain ⟨a, s, w, b, ha, hs, -, -, hline, hkey, heq, -⟩ := h.exists_parts
  refine ⟨a ++ key ++ s, w ++ b, by simp [hline], ?_, hkey.trim_between ha hs⟩
  simp only [List.mem_append, not_or]
  exact ⟨⟨fun hm => (nomatch ha '=' hm), heq⟩, fun hm => (nomatch hs '=' hm)⟩

theorem Item.Valid.assigns {i : Item} (h : i.Valid) {n : Nat} {e : Entry}
    (he : i.entry? n = some e) :
    ∃ line more v, i.lines = line :: more ∧ Assigns line e.key v := by
  cases h with
  | skipped => cases he
  | entry ha _ =>
    cases he
    exact ⟨_, _, _, rfl, ha⟩
  | block ha _ _ _ =>
    cases he
    exact ⟨_, _, _, rfl, ha⟩

theorem Cut.standsOn {lines : List Text} {items : List Item} (h : Cut lines items) {e : Entry}
    (he : e ∈ entriesFrom 1 items) : StandsOn lines e := by
  have hbounds := line_of_mem_entriesFrom he
  obtain ⟨front, back, hes⟩ := List.append_of_mem he
  obtain ⟨is, i, js, rfl, -, hi⟩ := exists_item_of_entriesFrom hes
  have hline := Item.line_of_entry? hi
  obtain ⟨line, more, v, hlines, ha⟩ := (h.valid i (by simp)).assigns hi
  obtain ⟨k, w, rfl, hk, hkey⟩ := ha.exists_split
  refine ⟨hbounds.1, by rw [h.length_eq]; omega, k, w, ?_, hk, hkey⟩
  rw [← h.cover, List.flatMap_append, List.flatMap_cons, hlines, hline, Nat.add_sub_cancel_left,
    lineCount, List.getElem?_append_right (Nat.le_refl _)]
  simp

/-- In a document that is accepted, the index of its lines and the search through its entries find
the same. A key is there if the key of an entry is the same in lower case, and then that is the only
such entry, and the one that is found. The entries stand in the order of their lines, each with its
key before the first `=` of its own. -/
theorem index_agrees_with_entries {name : Text} {lines : List Text} {doc : Document}
    (h : ofLines name lines = .ok doc) :
    doc.lines = lines ∧
    (∃ x, Index.ofLines lines = .ok x ∧ x.entries = doc.entries ∧
      ∀ key, x.entry? key = doc.entry? key ∧ x.contains key = doc.contains key) ∧
    (∀ key, doc.contains key = true ↔ ∃ e ∈ doc.entries, Text.lower e.key = Text.lower key) ∧
    (∀ key, ∀ e ∈ doc.entries, Text.lower e.key = Text.lower key →
      doc.entry? key = some e ∧ doc.get? key = some e.value ∧
        ∀ f ∈ doc.entries, Text.lower f.key = Text.lower key → f = e) ∧
    (doc.entries.map fun e => Text.lower e.key).Nodup ∧
    (doc.entries.map Entry.line).Pairwise (· < ·) ∧
    ∀ e ∈ doc.entries, StandsOn lines e := by
  obtain ⟨items, hcut, hnodup, rfl⟩ := ofLines_eq_ok_iff_cut.mp h
  rcases Index.ofLines_cases name lines with ⟨x, hx, hc, hdoc⟩ | ⟨e, -, hdoc⟩
  swap
  · rw [h] at hdoc
    cases hdoc
  have hentries : entriesFrom 1 items = x.entries := by
    rw [h] at hdoc
    exact congrArg Document.entries (Except.ok.inj hdoc)
  have hfind := hc.entry?_eq name lines
  rw [← hentries] at hfind
  have hiff : ∀ key e, Document.entry? ⟨name, lines, entriesFrom 1 items⟩ key = some e ↔
      e ∈ entriesFrom 1 items ∧ Text.lower e.key = Text.lower key := by
    intro key e
    rw [← hfind, hc.entry?_eq_some_iff, hentries]
    rfl
  refine ⟨rfl, ⟨x, hx, hentries.symm, fun key => ⟨hfind key, ?_⟩⟩, fun key => ?_,
    fun key e he hkey => ?_, hnodup, lines_strictly_increase 1 items, fun e => hcut.standsOn⟩
  · rw [hc.contains_eq, hfind key, contains]
  · simp only [contains, Option.isSome_iff_exists, hiff]
  · have hfound := (hiff key e).mpr ⟨he, hkey⟩
    refine ⟨hfound, by rw [get?, hfound]; rfl, fun f hf hfkey => ?_⟩
    exact Option.some.inj (((hiff key f).mpr ⟨hf, hfkey⟩).symm.trans hfound)

/-- A key of capital letters that ends in a sigma, and a block with a line that looks like one of an
entry. -/
def streetsDocument : Document where
  name := []
  lines := ["# streets", "  ΟΔΟΣ  = a = b", "Notes=\"\"\"", "Key = 1", "\"\"\"", "Key=2"].map
    String.toList
  entries := [⟨"ΟΔΟΣ".toList, "a = b".toList, 2⟩, ⟨"Notes".toList, "Key = 1".toList, 3⟩,
    ⟨"Key".toList, "2".toList, 6⟩]

theorem index_agrees_with_entries_streetsDocument :
    ofLines [] streetsDocument.lines = .ok streetsDocument ∧
    (∃ x, Index.ofLines streetsDocument.lines = .ok x ∧ x.entries = streetsDocument.entries ∧
      x.contains "οδος".toList = true ∧ x.contains "οδοσ".toList = false) ∧
    streetsDocument.get? "Οδος".toList = some "a = b".toList ∧
    ∀ e ∈ streetsDocument.entries, StandsOn streetsDocument.lines e := by
  have h : ofLines [] streetsDocument.lines = .ok streetsDocument := by decide +kernel
  obtain ⟨-, ⟨x, hx, hentries, hfind⟩, -, hfound, -, -, hlines⟩ := index_agrees_with_entries h
  have hin : streetsDocument.contains "οδος".toList = true := by decide +kernel
  have hout : streetsDocument.contains "οδοσ".toList = false := by decide +kernel
  have hfirst := hfound "Οδος".toList ⟨"ΟΔΟΣ".toList, "a = b".toList, 2⟩ (by decide +kernel)
    (by decide +kernel)
  exact ⟨h, ⟨x, hx, hentries, (hfind _).2.trans hin, (hfind _).2.trans hout⟩, hfirst.2.1, hlines⟩

end Packaging.Document
