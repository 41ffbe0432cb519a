import Mathlib.Data.List.Induction
import Mathlib.Data.List.Nodup
import Packaging.Proofs.Document.Cut

/-! Where a document is refused. Its lines are items with different keys up to the first bad one:
that one begins no item, or begins one whose key was there before. What stands behind the bad line
says only whether a block that it opens has an end, so the line is told by all lines up to it. -/

namespace Packaging.Document

/-! ## Repeated keys -/

/-- What is remembered of entries, the last of them first. -/
def seenOf (es : List Entry) : List (Text × Nat) := (es.map fun e => (e.folded, e.line)).reverse

theorem find?_seenOf_eq_none {es : List Entry} {key : Text} (h : ∀ e ∈ es, e.folded ≠ key) :
    (seenOf es).find? (·.1 == key) = none := by
  simpa [seenOf] using h

theorem find?_seenOf_of_mem {es : List Entry} (hd : (es.map Entry.folded).Nodup) {f : Entry}
    (hf : f ∈ es) : (seenOf es).find? (·.1 == f.folded) = some (f.folded, f.line) := by
  cases hs : (seenOf es).find? (·.1 == f.folded) with
  | none =>
    have hm : (f.folded, f.line) ∈ seenOf es :=
      List.mem_reverse.mpr (List.mem_map_of_mem (f := fun e => (e.folded, e.line)) hf)
    simpa using List.find?_eq_none.mp hs _ hm
  | some p =>
    obtain ⟨e, he, rfl⟩ := List.mem_map.mp (List.mem_reverse.mp (List.mem_of_find?_eq_some hs))
    have hkey : e.folded = f.folded := by simpa using List.find?_some hs
    rw [List.inj_on_of_nodup_map hd he hf hkey]

/-- Entries with different keys are all remembered. -/
theorem repeated?_append {es fs : List Entry} (h : ((es ++ fs).map Entry.folded).Nodup)
    (gs : List Entry) : repeated? (seenOf es) (fs ++ gs) = repeated? (seenOf (es ++ fs)) gs := by
  induction fs generalizing es with
  | nil => simp
  | cons f fs ih =>
    have hnew : (seenOf es).find? (·.1 == f.folded) = none := by
      refine find?_seenOf_eq_none fun e he heq => ?_
      rw [List.map_append, List.nodup_append] at h
      exact h.2.2 _ (List.mem_map_of_mem he) _ (List.mem_map_of_mem (List.mem_cons_self ..)) heq
    have hseen : seenOf (es ++ [f]) = (f.folded, f.line) :: seenOf es := by simp [seenOf]
    rw [List.cons_append, repeated?]
    simp only [hnew]
    rw [← hseen, ih (by simpa using h), List.append_assoc, List.singleton_append]

/-- The first entry with the key of one before it is cited, with the line of that one. -/
theorem repeated?_eq_of_first {front back : List Entry} {e f : Entry}
    (hd : (front.map Entry.folded).Nodup) (hf : f ∈ front) (hkey : f.folded = e.folded) :
    repeated? [] (front ++ e :: back) = some ⟨e.line, .repeatedKey e.key f.line⟩ := by
  have h : repeated? [] (front ++ e :: back) = repeated? (seenOf front) (e :: back) :=
    @repeated?_append [] front hd (e :: back)
  have hfind := find?_seenOf_of_mem hd hf
  rw [hkey] at hfind
  rw [h, repeated?]
  simp only [hfind]

theorem exists_first_repeated {es : List Entry} (h : ¬(es.map Entry.folded).Nodup) :
    ∃ front e back f, es = front ++ e :: back ∧ (front.map Entry.folded).Nodup ∧ f ∈ front ∧
      f.folded = e.folded := by
  induction es using List.reverseRecOn with
  | nil => exact absurd List.nodup_nil h
  | append_singleton init e ih =>
    by_cases hd : (init.map Entry.folded).Nodup
    · have hmem : e.folded ∈ init.map Entry.folded := by
        refine Classical.not_not.mp fun hn => h ?_
        rw [List.map_append, List.map_singleton, ← List.concat_eq_append]
        exact hd.concat hn
      obtain ⟨f, hf, hkey⟩ := List.mem_map.mp hmem
      exact ⟨init, e, [], f, rfl, hd, hf, hkey⟩
    · obtain ⟨front, e', back, f, rfl, hrest⟩ := ih hd
      exact ⟨front, e', back ++ [e], f, by simp, hrest⟩

/-- The item that an entry comes from. -/
theorem exists_item_of_entriesFrom {n : Nat} {items : List Item} {front back : List Entry}
    {e : Entry} (h : entriesFrom n items = front ++ e :: back) :
    ∃ is i js, items = is ++ i :: js ∧ entriesFrom n is = front ∧
      i.entry? (n + lineCount is) = some e := by
  induction items generalizing n front with
  | nil => simp [entriesFrom] at h
  | cons i items ih =>
    have hcons : ∀ front', entriesFrom (n + i.lines.length) items = front' ++ e :: back →
        (i.entry? n).toList ++ front' = front → ∃ is j js, i :: items = is ++ j :: js ∧
          entriesFrom n is = front ∧ j.entry? (n + lineCount is) = some e := by
      intro front' he hf
      obtain ⟨is, j, js, rfl, hfront, hj⟩ := ih he
      refine ⟨i :: is, j, js, rfl, by rw [entriesFrom, hfront, hf], ?_⟩
      rw [lineCount_cons, ← Nat.add_assoc]
      exact hj
    rw [entriesFrom] at h
    cases hi : i.entry? n with
    | none => exact hcons front (by simpa [hi] using h) (by rw [hi]; rfl)
    | some d =>
      rw [hi, Option.toList_some, List.singleton_append] at h
      cases front with
      | nil =>
        obtain ⟨rfl, -⟩ := List.cons.inj h
        exact ⟨[], i, items, rfl, rfl, hi⟩
      | cons c front =>
        obtain ⟨rfl, h⟩ := List.cons.inj h
        exact hcons front (by simpa using h) (by rw [hi]; rfl)

/-! ## The first bad line -/

/-- Behind the items the lines are refused at the first of them. -/
inductive Refused (items : List Item) : List Text → LineFault → Prop
  | blocked {ls : List Text} {fault : LineFault} : Blocked ls fault → Refused items ls fault
  | repeated {i : Item} {e f : Entry} {ls : List Text} : i.Valid →
      i.entry? (1 + lineCount items) = some e → f ∈ entriesFrom 1 items → f.folded = e.folded →
      Refused items (i.lines ++ ls) (.repeatedKey e.key f.line)

theorem Blocked.ne_nil {ls : List Text} {fault : LineFault} (h : Blocked ls fault) : ls ≠ [] := by
  cases h <;> nofun

theorem Refused.ne_nil {items : List Item} {ls : List Text} {fault : LineFault}
    (h : Refused items ls fault) : ls ≠ [] := by
  cases h with
  | blocked hb => exact hb.ne_nil
  | @repeated i => exact List.append_ne_nil_of_left_ne_nil i.lines_ne_nil _

/-- Items with different keys, and behind them a line that is refused. -/
structure RefusedBehind (items : List Item) (rest : List Text) (err : LineError) : Prop where
  valid : ∀ i ∈ items, i.Valid
  nodup : ((entriesFrom 1 items).map Entry.folded).Nodup
  line : err.line = 1 + lineCount items
  refused : Refused items rest err.fault

theorem ofLines_of_repeated {name : Text} {ls : List Text} {err : LineError}
    (h : repeated? [] (scan 1 ls).1 = some err) : ofLines name ls = .error err := by
  simp [ofLines, h]

theorem Item.line_of_entry? {i : Item} {n : Nat} {e : Entry} (h : i.entry? n = some e) :
    e.line = n := by
  cases i <;> cases h <;> rfl

theorem RefusedBehind.ofLines_eq {items : List Item} {rest : List Text} {err : LineError}
    (h : RefusedBehind items rest err) (name : Text) :
    ofLines name (items.flatMap Item.lines ++ rest) = .error err := by
  obtain ⟨hv, hd, hline, href⟩ := h
  obtain ⟨n, fault⟩ := err
  obtain rfl : n = 1 + lineCount items := hline
  have hs := scan_items hv 1 rest
  generalize hf : fault = fault' at href
  cases href with
  | blocked hb =>
    have hr : repeated? [] (entriesFrom 1 items) = none :=
      repeated?_eq_none_iff.mpr ⟨hd, by simp⟩
    rw [scan_blocked hb, List.append_nil] at hs
    simp [ofLines, hs, hr]
  | repeated hi he hmem hkey =>
    rw [scan_item hi, he, Option.toList_some, List.singleton_append] at hs
    refine ofLines_of_repeated ?_
    rw [hs, repeated?_eq_of_first hd hmem hkey, Item.line_of_entry? he]

/-- Lines are refused behind items that they start with, and in no other way. -/
theorem ofLines_eq_error_iff {name : Text} {ls : List Text} {err : LineError} :
    ofLines name ls = .error err ↔
      ∃ items rest, items.flatMap Item.lines ++ rest = ls ∧ RefusedBehind items rest err := by
  constructor
  · intro h
    obtain ⟨items, rest, hc⟩ := exists_cutUpTo ls
    obtain ⟨is, behind, err', hls, hr⟩ : ∃ is behind err', is.flatMap Item.lines ++ behind = ls ∧
        RefusedBehind is behind err' := by
      by_cases hd : ((entriesFrom 1 items).map Entry.folded).Nodup
      · by_cases hrest : rest = []
        · -- nothing is refused
          have hcut : Cut ls items := ⟨by rw [← hc.cover, hrest, List.append_nil], hc.valid⟩
          rw [ofLines_eq_ok_iff_cut.mpr ⟨items, hcut, hd, rfl⟩] at h
          cases h
        · obtain ⟨fault, hb⟩ := hc.blocked hrest
          exact ⟨items, rest, ⟨_, fault⟩, hc.cover, hc.valid, hd, rfl, .blocked hb⟩
      · obtain ⟨front, e, back, f, he, hfront, hf, hkey⟩ := exists_first_repeated hd
        obtain ⟨is, i, js, rfl, rfl, hi⟩ := exists_item_of_entriesFrom he
        have hv := List.forall_mem_append.mp hc.valid
        refine ⟨is, i.lines ++ (js.flatMap Item.lines ++ rest), ⟨_, _⟩, ?_, hv.1, hfront, rfl,
          .repeated (List.forall_mem_cons.mp hv.2).1 hi hf hkey⟩
        rw [← hc.cover]
        simp
    have he := hr.ofLines_eq name
    rw [hls, h] at he
    obtain rfl := Except.error.inj he
    exact ⟨is, behind, hls, hr⟩
  · rintro ⟨items, rest, rfl, hr⟩
    exact hr.ofLines_eq name

/-! ## Fewer lines -/

/-- Of an item that is not read to its end, a block has begun. -/
theorem Item.Valid.blocked_take {i : Item} (h : i.Valid) {k : Nat} (hk : 0 < k)
    (hlt : k < i.lines.length) : Blocked (i.lines.take k) .unclosedBlock := by
  cases h with
  | skipped => simp [Item.lines] at hlt; omega
  | entry => simp [Item.lines] at hlt; omega
  | @block opening key first closing last body ha hf hb hc =>
    obtain ⟨k, rfl⟩ : ∃ j, k = j + 1 := ⟨k - 1, by omega⟩
    simp only [Item.lines, List.length_append, List.length_cons, List.length_nil] at hlt
    rw [Item.lines, List.cons_append, List.take_succ_cons,
      List.take_append_of_le_length (by omega)]
    exact .unclosed ha hf fun m hm => hb m (List.mem_of_mem_take hm)

theorem Blocked.take {ls : List Text} {fault : LineFault} (h : Blocked ls fault) {k : Nat}
    (hk : 0 < k) : Blocked (ls.take k) fault := by
  obtain ⟨k, rfl⟩ : ∃ j, k = j + 1 := ⟨k - 1, by omega⟩
  cases h with
  | faulty hf => exact .faulty hf
  | unclosed ha hf hn => exact .unclosed ha hf fun m hm => hn m (List.mem_of_mem_take hm)

/-- The first of the lines is refused also with fewer lines behind it, for the same reason unless
they are too few for the end of its block. -/
theorem Refused.take {items : List Item} {ls : List Text} {fault : LineFault}
    (h : Refused items ls fault) {k : Nat} (hk : 0 < k) :
    Refused items (ls.take k) fault ∨
      (∃ key first, fault = .repeatedKey key first) ∧ Blocked (ls.take k) .unclosedBlock := by
  cases h with
  | blocked hb => exact .inl (.blocked (hb.take hk))
  | @repeated i e f ls hi he hf hkey =>
    rcases Nat.lt_or_ge k i.lines.length with hlt | hle
    · rw [List.take_append_of_le_length (Nat.le_of_lt hlt)]
      exact .inr ⟨⟨_, _, rfl⟩, hi.blocked_take hk hlt⟩
    · rw [List.take_append, List.take_of_length_le hle]
      exact .inl (.repeated hi he hf hkey)

/-- A document that is refused is refused at one of its lines. The lines before that one are
accepted, and with any lines behind it they are refused at it again; for another reason only where
its key was there before and the lines break off in its block. -/
theorem refused_at_first_bad_line {name : Text} {ls : List Text} {err : LineError}
    (h : ofLines name ls = .error err) :
    1 ≤ err.line ∧ err.line ≤ ls.length ∧
    (∃ doc, ofLines name (ls.take (err.line - 1)) = .ok doc) ∧
    ∀ m, err.line ≤ m → ∃ err', ofLines name (ls.take m) = .error err' ∧ err'.line = err.line ∧
      (err' = err ∨ (∃ key first, err.fault = .repeatedKey key first) ∧
        err'.fault = .unclosedBlock ∧
        Blocked ((ls.take m).drop (err.line - 1)) .unclosedBlock) := by
  obtain ⟨items, rest, rfl, hr⟩ := ofLines_eq_error_iff.mp h
  have hline : err.line - 1 = (items.flatMap Item.lines).length := by
    have := hr.line
    unfold lineCount at this
    omega
  have hpos : 0 < rest.length := List.length_pos_iff.mpr hr.refused.ne_nil
  have hone := hr.line
  refine ⟨by omega, by rw [List.length_append]; omega, ?_, ?_⟩
  · rw [hline, List.take_left]
    exact ⟨_, ofLines_eq_ok_iff_cut.mpr ⟨items, ⟨rfl, hr.valid⟩, hr.nodup, rfl⟩⟩
  · intro m hm
    obtain ⟨k, rfl⟩ : ∃ k, m = err.line - 1 + k := ⟨m - (err.line - 1), by omega⟩
    rw [hline, List.take_length_add_append, List.drop_left]
    rcases hr.refused.take (k := k) (by omega) with htake | ⟨hkey, hb⟩
    · have hsame : RefusedBehind items (rest.take k) err := ⟨hr.valid, hr.nodup, hr.line, htake⟩
      exact ⟨err, hsame.ofLines_eq name, rfl, .inl rfl⟩
    · have hopen : RefusedBehind items (rest.take k) ⟨err.line, .unclosedBlock⟩ :=
        ⟨hr.valid, hr.nodup, hr.line, .blocked hb⟩
      exact ⟨_, hopen.ofLines_eq name, rfl, .inr ⟨hkey, rfl, hb⟩⟩

/-- A block that repeats a key, and behind it a line that is faulty. -/
def repeatingLines : List Text :=
  ["Key = 1", "# key", "KEY = \"\"\"", "a", "\"\"\"", "?"].map String.toList

theorem refused_at_first_bad_line_repeatingLines :
    ofLines [] repeatingLines = .error ⟨3, .repeatedKey "KEY".toList 1⟩ ∧
    (∃ doc, ofLines [] (repeatingLines.take 2) = .ok doc) ∧
    ∃ err, ofLines [] (repeatingLines.take 4) = .error err ∧ err.line = 3 := by
  have h : ofLines [] repeatingLines = .error ⟨3, .repeatedKey "KEY".toList 1⟩ := by
    decide +kernel
  obtain ⟨-, -, hbefore, hmore⟩ := refused_at_first_bad_line h
  obtain ⟨err, he, hline, -⟩ := hmore 4 (by decide)
  exact ⟨h, hbefore, err, he, hline⟩

end Packaging.Document
