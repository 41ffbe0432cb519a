import Packaging.Proofs.Document.Refusal

/-! Documents that stand one behind the other. Nothing of the first reaches into the second but its
keys: the entries of both are found, those of the second moved on by the lines of the first, unless
the second has a key of the first. What is wrong with the second is wrong with both, where no such
key is found before. -/

namespace Packaging

/-- The entry with so many more lines before it. -/
def Entry.moved (k : Nat) (e : Entry) : Entry := { e with line := e.line + k }

@[simp] theorem Entry.folded_moved (k : Nat) (e : Entry) : (e.moved k).folded = e.folded := rfl

@[simp] theorem Entry.map_folded_moved (k : Nat) (es : List Entry) :
    (es.map (Entry.moved k)).map Entry.folded = es.map Entry.folded := by
  simp [Function.comp_def]

namespace Document

/-! ## Numbers of lines -/

theorem Item.entry?_add (i : Item) (n k : Nat) :
    i.entry? (n + k) = (i.entry? n).map (Entry.moved k) := by
  cases i <;> rfl

theorem entriesFrom_add (n k : Nat) (items : List Item) :
    entriesFrom (n + k) items = (entriesFrom n items).map (Entry.moved k) := by
  induction items generalizing n with
  | nil => rfl
  | cons i items ih =>
    rw [entriesFrom, entriesFrom, List.map_append, i.entry?_add, Nat.add_right_comm, ih]
    cases i.entry? n <;> rfl

theorem lineCount_append (is js : List Item) :
    lineCount (is ++ js) = lineCount is + lineCount js := by
  simp [lineCount]

theorem Cut.length_eq {ls : List Text} {items : List Item} (h : Cut ls items) :
    ls.length = lineCount items := by
  rw [← h.cover, lineCount]

/-- The entries of items that stand behind others are moved on by the lines of those. -/
theorem entriesFrom_append (n : Nat) (is js : List Item) :
    entriesFrom n (is ++ js) =
      entriesFrom n is ++ (entriesFrom n js).map (Entry.moved (lineCount is)) := by
  rw [← entriesFrom_add]
  induction is generalizing n with
  | nil => rfl
  | cons i is ih =>
    rw [List.cons_append, entriesFrom, ih, entriesFrom, lineCount_cons, List.append_assoc,
      Nat.add_assoc]

theorem line_of_mem_entriesFrom {n : Nat} {items : List Item} {e : Entry}
    (h : e ∈ entriesFrom n items) : n ≤ e.line ∧ e.line < n + lineCount items := by
  induction items generalizing n with
  | nil => cases h
  | cons i items ih =>
    have hpos : 0 < i.lines.length := List.length_pos_iff.mpr i.lines_ne_nil
    rw [lineCount_cons]
    rcases List.mem_append.mp h with h | h
    · have := Item.line_of_entry? (Option.mem_toList.mp h)
      omega
    · have := ih h
      omega

/-! ## Shared keys -/

/-- What is refused behind items is refused behind more of them, though maybe for another entry. -/
theorem Refused.behind {js : List Item} {ls : List Text} {fault : LineFault}
    (h : Refused js ls fault) (is : List Item) : ∃ fault', Refused (is ++ js) ls fault' := by
  cases h with
  | blocked hb => exact ⟨_, .blocked hb⟩
  | @repeated i e f ls hi he hf hkey =>
    have he' : i.entry? (1 + lineCount (is ++ js)) = some (e.moved (lineCount is)) := by
      rw [lineCount_append, Nat.add_comm (lineCount is), ← Nat.add_assoc, i.entry?_add, he]
      rfl
    have hf' : f.moved (lineCount is) ∈ entriesFrom 1 (is ++ js) := by
      rw [entriesFrom_append]
      exact List.mem_append_right _ (List.mem_map_of_mem hf)
    exact ⟨_, .repeated hi he' hf' hkey⟩

/-- No key of the entries is one of the others. -/
def Apart (es fs : List Entry) : Prop := ∀ e ∈ es, ∀ f ∈ fs, f.folded ≠ e.folded

instance (es fs : List Entry) : Decidable (Apart es fs) :=
  inferInstanceAs (Decidable (∀ e ∈ es, ∀ f ∈ fs, f.folded ≠ e.folded))

theorem nodup_append_iff {is js : List Item} :
    ((entriesFrom 1 (is ++ js)).map Entry.folded).Nodup ↔
      ((entriesFrom 1 is).map Entry.folded).Nodup ∧ ((entriesFrom 1 js).map Entry.folded).Nodup ∧
        Apart (entriesFrom 1 is) (entriesFrom 1 js) := by
  rw [entriesFrom_append, List.map_append, Entry.map_folded_moved, List.nodup_append]
  simp only [List.forall_mem_map, Apart, ne_comm]

/-- The first entry with a key of the others, and the one that it shares it with. -/
structure FirstShared (es : List Entry) (front : List Entry) (f e : Entry) : Prop where
  apart : Apart es front
  mem : e ∈ es
  key : e.folded = f.folded

theorem exists_firstShared {es fs : List Entry} (h : ¬Apart es fs) :
    ∃ front f back e, fs = front ++ f :: back ∧ FirstShared es front f e := by
  induction fs with
  | nil => exact absurd (fun _ _ _ hf => absurd hf List.not_mem_nil) h
  | cons f fs ih =>
    by_cases hf : ∃ e ∈ es, e.folded = f.folded
    · obtain ⟨e, he, hkey⟩ := hf
      exact ⟨[], f, fs, e, rfl, fun _ _ _ hx => absurd hx List.not_mem_nil, he, hkey⟩
    · have hne : ∀ e ∈ es, f.folded ≠ e.folded := fun e he heq => hf ⟨e, he, heq.symm⟩
      obtain ⟨front, g, back, e, rfl, hs⟩ := ih fun ha =>
        h fun e he => List.forall_mem_cons.mpr ⟨hne e he, ha e he⟩
      exact ⟨f :: front, g, back, e, rfl,
        fun e he => List.forall_mem_cons.mpr ⟨hne e he, hs.apart e he⟩, hs.mem, hs.key⟩

section

variable {name : Text} {ls ms : List Text} {is js : List Item} (his : Cut ls is) (hjs : Cut ms js)
  (hd : ((entriesFrom 1 is).map Entry.folded).Nodup)

include his hjs hd

theorem ofLines_append_eq_ok_iff (hd' : ((entriesFrom 1 js).map Entry.folded).Nodup)
    {both : Document} :
    ofLines name (ls ++ ms) = .ok both ↔ Apart (entriesFrom 1 is) (entriesFrom 1 js) ∧
      both = ⟨name, ls ++ ms,
        entriesFrom 1 is ++ (entriesFrom 1 js).map (Entry.moved (lineCount is))⟩ := by
  rw [ofLines_eq_ok_iff_cut, ← entriesFrom_append]
  constructor
  · rintro ⟨items, hc, hnodup, rfl⟩
    obtain rfl := hc.unique (his.append hjs)
    exact ⟨(nodup_append_iff.mp hnodup).2.2, rfl⟩
  · rintro ⟨ha, rfl⟩
    exact ⟨is ++ js, his.append hjs, nodup_append_iff.mpr ⟨hd, hd', ha⟩, rfl⟩

/-- The first shared key is refused, whatever stands behind the items. -/
theorem ofLines_append_of_firstShared (hd' : ((entriesFrom 1 js).map Entry.folded).Nodup)
    {front back : List Entry} {f e : Entry} (he : entriesFrom 1 js = front ++ f :: back)
    (h : FirstShared (entriesFrom 1 is) front f e) (more : List Text) :
    ofLines name (ls ++ ms ++ more) =
      .error ⟨lineCount is + f.line, .repeatedKey f.key e.line⟩ := by
  have hboth := his.append hjs
  have hfront : ((entriesFrom 1 is ++ front.map (Entry.moved (lineCount is))).map
      Entry.folded).Nodup := by
    rw [he, List.map_append] at hd'
    rw [List.map_append, Entry.map_folded_moved, List.nodup_append]
    refine ⟨hd, (List.nodup_append.mp hd').1, ?_⟩
    simpa only [Apart, List.forall_mem_map, Entry.folded_moved, ne_comm] using h.apart
  have hmem := List.mem_append_left (front.map (Entry.moved (lineCount is))) h.mem
  refine ofLines_of_repeated ?_
  rw [← hboth.cover, scan_items hboth.valid, entriesFrom_append, he, List.map_append,
    List.map_cons, List.append_assoc, List.append_assoc, List.cons_append, ← List.append_assoc,
    repeated?_eq_of_first (e := f.moved (lineCount is)) hfront hmem h.key, Nat.add_comm]
  rfl

/-- What is refused behind the second items is refused behind both, or a shared key is before. -/
theorem exists_error_append {rest : List Text} {err : LineError} (h : RefusedBehind js rest err) :
    ∃ err', ofLines name (ls ++ ms ++ rest) = .error err' ∧ lineCount is < err'.line ∧
      err'.line ≤ lineCount is + err.line := by
  have hboth := his.append hjs
  have hline := h.line
  by_cases ha : Apart (entriesFrom 1 is) (entriesFrom 1 js)
  · obtain ⟨fault, hr⟩ := h.refused.behind is
    have hrefused : RefusedBehind (is ++ js) rest ⟨1 + lineCount (is ++ js), fault⟩ :=
      ⟨hboth.valid, nodup_append_iff.mpr ⟨hd, h.nodup, ha⟩, rfl, hr⟩
    rw [← hboth.cover]
    refine ⟨_, hrefused.ofLines_eq name, ?_⟩
    simp only [lineCount_append]
    omega
  · obtain ⟨front, f, back, e, he, hs⟩ := exists_firstShared ha
    have hf : f ∈ entriesFrom 1 js := by simp [he]
    have hbounds := line_of_mem_entriesFrom hf
    refine ⟨_, ofLines_append_of_firstShared his hjs hd h.nodup he hs rest, ?_⟩
    simp only
    omega

end

/-- A document and another behind it are read together exactly if no key of the one is a key of the
other, and then as both are, with the lines of the second counted on. Otherwise the first entry with
a key of the first document is refused, on its line, and the line of that key is cited. And behind a
document another that is refused stays so, on the same line or on one of its own before. -/
theorem ofLines_append {name : Text} {ls : List Text} {doc : Document}
    (h : ofLines name ls = .ok doc) (ms : List Text) :
    (∀ doc', ofLines name ms = .ok doc' →
      (∀ both, ofLines name (ls ++ ms) = .ok both ↔ Apart doc.entries doc'.entries ∧
        both = ⟨name, ls ++ ms, doc.entries ++ doc'.entries.map (Entry.moved ls.length)⟩) ∧
      (¬Apart doc.entries doc'.entries → ∃ front f back e,
        doc'.entries = front ++ f :: back ∧ FirstShared doc.entries front f e ∧
        ofLines name (ls ++ ms) = .error ⟨ls.length + f.line, .repeatedKey f.key e.line⟩)) ∧
    ∀ err, ofLines name ms = .error err → ∃ err', ofLines name (ls ++ ms) = .error err' ∧
      ls.length < err'.line ∧ err'.line ≤ ls.length + err.line := by
  obtain ⟨is, his, hd, rfl⟩ := ofLines_eq_ok_iff_cut.mp h
  rw [his.length_eq]
  constructor
  · intro doc' h'
    obtain ⟨js, hjs, hd', rfl⟩ := ofLines_eq_ok_iff_cut.mp h'
    refine ⟨fun both => ofLines_append_eq_ok_iff his hjs hd hd', fun ha => ?_⟩
    obtain ⟨front, f, back, e, he, hs⟩ := exists_firstShared ha
    refine ⟨front, f, back, e, he, hs, ?_⟩
    rw [← List.append_nil (ls ++ ms)]
    exact ofLines_append_of_firstShared his hjs hd hd' he hs []
  · intro err he
    obtain ⟨js, rest, rfl, hr⟩ := ofLines_eq_error_iff.mp he
    rw [← List.append_assoc]
    exact exists_error_append his ⟨rfl, hr.valid⟩ hd hr

def notesDocument : Document where
  name := []
  lines := ["Key = 1", "Notes = \"\"\"", "a", "\"\"\""].map String.toList
  entries := [⟨"Key".toList, "1".toList, 1⟩, ⟨"Notes".toList, "a".toList, 2⟩]

/-- The second entry has a key of `notesDocument` in another case. -/
def sharingDocument : Document where
  name := []
  lines := ["Other = 2", "# notes", "NOTES = 3"].map String.toList
  entries := [⟨"Other".toList, "2".toList, 1⟩, ⟨"NOTES".toList, "3".toList, 3⟩]

theorem ofLines_append_notesDocument :
    ofLines [] notesDocument.lines = .ok notesDocument ∧
    ofLines [] sharingDocument.lines = .ok sharingDocument ∧
    ¬Apart notesDocument.entries sharingDocument.entries ∧
    (∃ front f back e, sharingDocument.entries = front ++ f :: back ∧
      FirstShared notesDocument.entries front f e ∧
      ofLines [] (notesDocument.lines ++ sharingDocument.lines) =
        .error ⟨4 + f.line, .repeatedKey f.key e.line⟩) ∧
    ofLines [] (sharingDocument.lines ++ ["?".toList]) = .error ⟨4, .noEntry "?".toList⟩ ∧
    ∃ err, ofLines [] (notesDocument.lines ++ (sharingDocument.lines ++ ["?".toList])) =
      .error err ∧ 4 < err.line ∧ err.line ≤ 4 + 4 := by
  have hnotes : ofLines [] notesDocument.lines = .ok notesDocument := by decide +kernel
  have hsharing : ofLines [] sharingDocument.lines = .ok sharingDocument := by decide +kernel
  have hfaulty : ofLines [] (sharingDocument.lines ++ ["?".toList]) =
      .error ⟨4, .noEntry "?".toList⟩ := by decide +kernel
  have hapart : ¬Apart notesDocument.entries sharingDocument.entries := by decide +kernel
  exact ⟨hnotes, hsharing, hapart, ((ofLines_append hnotes _).1 _ hsharing).2 hapart, hfaulty,
    (ofLines_append hnotes _).2 _ hfaulty⟩

end Document

end Packaging
