import Packaging.Proofs.Document.Grammar

/-! Reading against the grammar. A run over the lines of items finds their entries and goes on
behind them; a run without a fault has such items behind it, and only one sequence of them. With the
keys told apart this says which documents are accepted and what is read from them. -/

namespace Packaging.Document

open Text (Before)

/-! ## One step of a run -/

theorem scan_skipped {line : Text} (h : IsSkipped line) (n : Nat) (ls : List Text) :
    scan n (line :: ls) = scan (n + 1) ls := by
  rw [scan]
  simp only [LineKind.ofLine_of_skipped h]

theorem scan_entry {line key v value : Text} (ha : Assigns line key v) (hv : OneLine v value)
    (n : Nat) (ls : List Text) :
    scan n (line :: ls) = (⟨key, value, n⟩ :: (scan (n + 1) ls).1, (scan (n + 1) ls).2) := by
  have hl := (LineKind.ofLine_of_assigns ha).trans (LineKind.ofValue_of_oneLine hv)
  rw [scan]
  simp only [hl]

theorem scan_opening {line key first : Text} (ha : Assigns line key (blockMark ++ first))
    (hf : ¬blockMark <:+: first) (n : Nat) (ls : List Text) :
    scan n (line :: ls) =
      match cutBlock ls with
      | none => ([], some ⟨n, .unclosedBlock⟩)
      | some (body, rest) =>
        (⟨key, Text.trim (Text.unlines (first :: body)), n⟩ :: (scan (n + 1 + body.length) rest).1,
          (scan (n + 1 + body.length) rest).2) := by
  have hl := (LineKind.ofLine_of_assigns ha).trans (LineKind.ofValue_of_open hf)
  rw [scan]
  simp only [hl]
  split <;> rename_i hc <;> simp only [hc]

theorem scan_faulty {line : Text} {fault : LineFault} (h : LineKind.ofLine line = .faulty fault)
    (n : Nat) (ls : List Text) : scan n (line :: ls) = ([], some ⟨n, fault⟩) := by
  unfold scan
  simp only [h]

/-- An item is read as a whole, and the run goes on behind it. -/
theorem scan_item {i : Item} (h : i.Valid) (n : Nat) (ls : List Text) :
    scan n (i.lines ++ ls) =
      ((i.entry? n).toList ++ (scan (n + i.lines.length) ls).1,
        (scan (n + i.lines.length) ls).2) := by
  cases h with
  | skipped hs => exact scan_skipped hs n ls
  | entry ha hv => exact scan_entry ha hv n ls
  | block ha hf hb hc =>
    simp only [Item.lines, List.cons_append, List.append_assoc, List.nil_append]
    rw [scan_opening ha hf, cutBlock_of_body hb hc]
    simp only [Item.entry?, Option.toList_some, List.cons_append, List.nil_append,
      List.length_cons, List.length_append, List.length_nil, Nat.add_comm, Nat.add_left_comm]

/-! ## Runs -/

/-- The number of lines of items. -/
def lineCount (items : List Item) : Nat := (items.flatMap Item.lines).length

theorem lineCount_cons (i : Item) (items : List Item) :
    lineCount (i :: items) = i.lines.length + lineCount items := by
  simp [lineCount]

theorem scan_items {items : List Item} (h : ∀ i ∈ items, i.Valid) (n : Nat) (ls : List Text) :
    scan n (items.flatMap Item.lines ++ ls) =
      (entriesFrom n items ++ (scan (n + lineCount items) ls).1,
        (scan (n + lineCount items) ls).2) := by
  induction items generalizing n with
  | nil => rfl
  | cons i items ih =>
    have hi := h i (List.mem_cons_self ..)
    have hr := ih (fun j hj => h j (List.mem_cons_of_mem _ hj)) (n + i.lines.length)
    rw [List.flatMap_cons, List.append_assoc, scan_item hi, hr, lineCount_cons, entriesFrom,
      ← Nat.add_assoc, List.append_assoc]

theorem scan_of_cut {lines : List Text} {items : List Item} (h : Cut lines items) (n : Nat) :
    scan n lines = (entriesFrom n items, none) := by
  have := scan_items h.valid n []
  rw [List.append_nil, h.cover] at this
  rw [this]
  simp [scan]

theorem Cut.cons {i : Item} {lines : List Text} {items : List Item} (hi : i.Valid)
    (h : Cut lines items) : Cut (i.lines ++ lines) (i :: items) := by
  refine ⟨by rw [List.flatMap_cons, h.cover], ?_⟩
  intro j hj
  rcases List.mem_cons.mp hj with rfl | hj
  · exact hi
  · exact h.valid j hj

theorem Cut.append {ls ms : List Text} {is js : List Item} (h : Cut ls is) (h' : Cut ms js) :
    Cut (ls ++ ms) (is ++ js) :=
  ⟨by rw [List.flatMap_append, h.cover, h'.cover], fun i hi =>
    (List.mem_append.mp hi).elim (h.valid i) (h'.valid i)⟩

theorem cut_nil : Cut [] [] := ⟨rfl, nofun⟩

/-- No item begins the lines: the first of them is faulty, or opens a block that does not end. -/
inductive Blocked : List Text → LineFault → Prop
  | faulty {l : Text} {ls : List Text} {fault : LineFault} :
      LineKind.ofLine l = .faulty fault → Blocked (l :: ls) fault
  | unclosed {l key first : Text} {ls : List Text} : Assigns l key (blockMark ++ first) →
      ¬blockMark <:+: first → (∀ m ∈ ls, ¬blockMark <:+: m) → Blocked (l :: ls) .unclosedBlock

theorem scan_blocked {ls : List Text} {fault : LineFault} (h : Blocked ls fault) (n : Nat) :
    scan n ls = ([], some ⟨n, fault⟩) := by
  cases h with
  | faulty hf => exact scan_faulty hf n _
  | unclosed ha hf hn => rw [scan_opening ha hf, cutBlock_eq_none_iff.mpr hn]

/-- The items cover the lines up to the rest of them, which no further item begins. -/
structure CutUpTo (lines : List Text) (items : List Item) (rest : List Text) : Prop where
  cover : items.flatMap Item.lines ++ rest = lines
  valid : ∀ i ∈ items, i.Valid
  blocked : rest ≠ [] → ∃ fault, Blocked rest fault

theorem CutUpTo.cons {i : Item} {lines rest : List Text} {items : List Item} (hi : i.Valid)
    (h : CutUpTo lines items rest) : CutUpTo (i.lines ++ lines) (i :: items) rest :=
  ⟨by rw [List.flatMap_cons, List.append_assoc, h.cover], List.forall_mem_cons.mpr ⟨hi, h.valid⟩,
    h.blocked⟩

theorem cutUpTo_of_blocked {lines : List Text} {fault : LineFault} (h : Blocked lines fault) :
    CutUpTo lines [] lines :=
  ⟨rfl, nofun, fun _ => ⟨fault, h⟩⟩

theorem exists_cutUpTo (lines : List Text) : ∃ items rest, CutUpTo lines items rest := by
  induction hk : lines.length using Nat.strongRecOn generalizing lines with
  | ind k ih =>
    cases lines with
    | nil => exact ⟨[], [], rfl, nofun, fun h => absurd rfl h⟩
    | cons line ls =>
      have hls : ls.length < k := by rw [← hk]; exact Nat.lt_succ_self _
      rcases LineKind.ofLine_cases line with hs | ⟨key, v, ha⟩ | ⟨fault, hf⟩
      · obtain ⟨items, rest, hc⟩ := ih _ hls ls rfl
        exact ⟨_, rest, hc.cons (.skipped hs)⟩
      · rcases LineKind.ofValue_cases key v with ⟨w, hw, -⟩ | ⟨first, rfl, hf, -⟩
        · obtain ⟨items, rest, hc⟩ := ih _ hls ls rfl
          exact ⟨_, rest, hc.cons (.entry ha hw)⟩
        · cases hb : cutBlock ls with
          | none =>
            exact ⟨[], _, cutUpTo_of_blocked (.unclosed ha hf (cutBlock_eq_none_iff.mp hb))⟩
          | some p =>
            obtain ⟨cut, behind⟩ := p
            have hlen := cutBlock_length hb
            obtain ⟨body, closing, last, rfl, rfl, hn, hl⟩ := exists_body_of_cutBlock hb
            obtain ⟨items, rest, hc⟩ := ih behind.length (by omega) behind rfl
            have hi := Item.Valid.block ha hf hn hl
            exact ⟨_, rest, by simpa [Item.lines] using hc.cons hi⟩
      · exact ⟨[], _, cutUpTo_of_blocked (.faulty hf)⟩

/-- A run that ends without a fault has read items. -/
theorem exists_cut_of_scan {n : Nat} {lines : List Text} {es : List Entry}
    (h : scan n lines = (es, none)) : ∃ items, Cut lines items := by
  obtain ⟨items, rest, hc⟩ := exists_cutUpTo lines
  by_cases hr : rest = []
  · exact ⟨items, by rw [← hc.cover, hr, List.append_nil], hc.valid⟩
  · obtain ⟨fault, hb⟩ := hc.blocked hr
    rw [← hc.cover, scan_items hc.valid, scan_blocked hb] at h
    cases h

/-! ## One cut -/

theorem Assigns.unique {line key key' v v' : Text} (h : Assigns line key v)
    (h' : Assigns line key' v') : key = key' ∧ v = v' := by
  obtain ⟨-, -, a, b, he, ha, rfl, rfl⟩ := h
  obtain ⟨-, -, c, d, hf, hc, rfl, rfl⟩ := h'
  have hs := Text.splitFirst?_eq_some_iff.mpr ⟨he, ha⟩
  rw [Text.splitFirst?_eq_some_iff.mpr ⟨hf, hc⟩] at hs
  obtain ⟨rfl, rfl⟩ := Prod.mk.inj (Option.some.inj hs)
  exact ⟨rfl, rfl⟩

theorem OneLine.unique {v w w' : Text} (h : OneLine v w) (h' : OneLine v w') : w = w' := by
  have he := @LineKind.ofValue_of_oneLine [] _ _ h
  rw [LineKind.ofValue_of_oneLine h'] at he
  exact (LineKind.entry.inj he).2.symm

theorem OneLine.not_open {t w : Text} (h : OneLine (blockMark ++ t) w) :
    blockMark <:+: t := by
  refine Classical.byContradiction fun hn => ?_
  have he := @LineKind.ofValue_of_oneLine [] _ _ h
  rw [LineKind.ofValue_of_open hn] at he
  cases he

/-- The first item is determined by the lines that it starts. -/
theorem Item.Valid.unique {i j : Item} {ls ls' : List Text} (hi : i.Valid) (hj : j.Valid)
    (h : i.lines ++ ls = j.lines ++ ls') : i = j ∧ ls = ls' := by
  cases hi with
  | skipped hs =>
    cases hj with
    | skipped _ =>
      obtain ⟨rfl, rfl⟩ := List.cons.inj h
      exact ⟨rfl, rfl⟩
    | entry ha _ =>
      obtain ⟨rfl, -⟩ := List.cons.inj h
      exact absurd hs ha.1
    | block ha _ _ _ =>
      obtain ⟨rfl, -⟩ := List.cons.inj h
      exact absurd hs ha.1
  | entry ha hv =>
    cases hj with
    | skipped hs =>
      obtain ⟨rfl, -⟩ := List.cons.inj h
      exact absurd hs ha.1
    | entry ha' hv' =>
      obtain ⟨rfl, rfl⟩ := List.cons.inj h
      obtain ⟨rfl, rfl⟩ := ha.unique ha'
      rw [hv.unique hv']
      exact ⟨rfl, rfl⟩
    | block ha' hf _ _ =>
      obtain ⟨rfl, -⟩ := List.cons.inj h
      obtain ⟨-, rfl⟩ := ha.unique ha'
      exact absurd hv.not_open hf
  | block ha hf hb hc =>
    cases hj with
    | skipped hs =>
      obtain ⟨rfl, -⟩ := List.cons.inj h
      exact absurd hs ha.1
    | entry ha' hv =>
      obtain ⟨rfl, -⟩ := List.cons.inj h
      obtain ⟨-, rfl⟩ := ha.unique ha'
      exact absurd hv.not_open hf
    | block ha' hf' hb' hc' =>
      simp only [Item.lines, List.cons_append, List.append_assoc, List.nil_append] at h
      obtain ⟨rfl, hl⟩ := List.cons.inj h
      obtain ⟨rfl, hv⟩ := ha.unique ha'
      obtain rfl := List.append_cancel_left hv
      have hcut := @cutBlock_of_body _ _ _ ls hb hc
      rw [hl, cutBlock_of_body hb' hc'] at hcut
      obtain ⟨hbody, rfl⟩ := Prod.mk.inj (Option.some.inj hcut)
      obtain ⟨rfl, rfl⟩ := List.append_singleton_inj.mp hbody
      obtain ⟨rfl, -⟩ := List.cons.inj (List.append_cancel_left hl)
      exact ⟨rfl, rfl⟩

theorem Item.lines_ne_nil (i : Item) : i.lines ≠ [] := by
  cases i <;> nofun

theorem Cut.unique {lines : List Text} {items items' : List Item} (h : Cut lines items)
    (h' : Cut lines items') : items = items' := by
  induction items generalizing lines items' with
  | nil =>
    cases items' with
    | nil => rfl
    | cons j _ =>
      have he := h.cover.trans h'.cover.symm
      rw [List.flatMap_cons, List.flatMap_nil] at he
      exact absurd (List.append_eq_nil_iff.mp he.symm).1 j.lines_ne_nil
  | cons i items ih =>
    cases items' with
    | nil =>
      have he := h.cover.trans h'.cover.symm
      rw [List.flatMap_cons, List.flatMap_nil] at he
      exact absurd (List.append_eq_nil_iff.mp he).1 i.lines_ne_nil
    | cons j items' =>
      have he := h.cover.trans h'.cover.symm
      rw [List.flatMap_cons, List.flatMap_cons] at he
      obtain ⟨rfl, hr⟩ := (h.valid i (List.mem_cons_self ..)).unique
        (h'.valid j (List.mem_cons_self ..)) he
      have ht : Cut (items.flatMap Item.lines) items :=
        ⟨rfl, fun k hk => h.valid k (List.mem_cons_of_mem _ hk)⟩
      have ht' : Cut (items.flatMap Item.lines) items' :=
        ⟨hr.symm, fun k hk => h'.valid k (List.mem_cons_of_mem _ hk)⟩
      rw [ih ht ht']

/-! ## Keys -/

theorem repeated?_eq_none_iff {seen : List (Text × Nat)} {es : List Entry} :
    repeated? seen es = none ↔
      (es.map Entry.folded).Nodup ∧ ∀ e ∈ es, e.folded ∉ seen.map Prod.fst := by
  induction es generalizing seen with
  | nil => simp [repeated?]
  | cons e es ih =>
    rw [repeated?]
    cases hf : seen.find? (·.1 == e.folded) with
    | some first =>
      have hm := List.mem_map_of_mem (f := Prod.fst) (List.mem_of_find?_eq_some hf)
      have he : first.1 = e.folded := by simpa using List.find?_some hf
      rw [he] at hm
      simp only [reduceCtorEq, false_iff, not_and]
      intro _ hall
      exact hall e (List.mem_cons_self ..) hm
    | none =>
      have hn : e.folded ∉ seen.map Prod.fst := by
        intro hm
        obtain ⟨p, hp, he⟩ := List.mem_map.mp hm
        have := List.find?_eq_none.mp hf p hp
        simp [he] at this
      simp only [ih, List.map_cons, List.nodup_cons, List.mem_cons, not_or]
      constructor
      · intro h
        obtain ⟨hd, hs⟩ := h
        refine ⟨⟨?_, hd⟩, ?_⟩
        · intro hm
          obtain ⟨x, hx, he⟩ := List.mem_map.mp hm
          exact (hs x hx).1 he
        · rintro x (rfl | hx)
          · exact hn
          · exact (hs x hx).2
      · intro hr
        obtain ⟨⟨he, hd⟩, hs⟩ := hr
        refine ⟨hd, fun x hx => ⟨?_, hs x (.inr hx)⟩⟩
        intro hx'
        exact he (hx' ▸ List.mem_map_of_mem hx)

theorem ofLines_eq_ok_iff {name : Text} {lines : List Text} {doc : Document} :
    ofLines name lines = .ok doc ↔
      repeated? [] (scan 1 lines).1 = none ∧ (scan 1 lines).2 = none ∧
        doc = ⟨name, lines, (scan 1 lines).1⟩ := by
  rw [ofLines]
  cases repeated? [] (scan 1 lines).1 with
  | some e => simp
  | none =>
    cases (scan 1 lines).2 with
    | some e => simp
    | none => simp [eq_comm]

/-- A document is accepted with the entries of a cut of its lines, if their keys differ. -/
theorem ofLines_eq_ok_iff_cut {name : Text} {lines : List Text} {doc : Document} :
    ofLines name lines = .ok doc ↔
      ∃ items, Cut lines items ∧ ((entriesFrom 1 items).map Entry.folded).Nodup ∧
        doc = ⟨name, lines, entriesFrom 1 items⟩ := by
  rw [ofLines_eq_ok_iff, repeated?_eq_none_iff]
  constructor
  · intro h
    obtain ⟨⟨hd, -⟩, hn, rfl⟩ := h
    obtain ⟨items, hc⟩ := exists_cut_of_scan (Prod.ext rfl hn)
    have hs := scan_of_cut hc 1
    rw [hs] at hd ⊢
    exact ⟨items, hc, hd, rfl⟩
  · intro hx
    obtain ⟨items, hc, hd, rfl⟩ := hx
    rw [scan_of_cut hc 1]
    exact ⟨⟨hd, fun _ _ => List.not_mem_nil⟩, rfl, rfl⟩

/-- Reading accepts exactly the lines that can be cut into items with different keys, there is one
such cut, its entries are the document's, and any other lines are an error. -/
theorem ofLines_accepts_exactly_cuts (name : Text) (lines : List Text) :
    (∀ doc, ofLines name lines = .ok doc ↔
      ∃ items, Cut lines items ∧ ((entriesFrom 1 items).map Entry.folded).Nodup ∧
        doc = ⟨name, lines, entriesFrom 1 items⟩) ∧
    (∀ items items', Cut lines items → Cut lines items' → items = items') ∧
    ((∃ e, ofLines name lines = .error e) ↔
      ¬∃ items, Cut lines items ∧ ((entriesFrom 1 items).map Entry.folded).Nodup) := by
  refine ⟨fun doc => ofLines_eq_ok_iff_cut, fun _ _ => Cut.unique, ?_⟩
  constructor
  · rintro ⟨e, he⟩ ⟨items, hc, hd⟩
    rw [ofLines_eq_ok_iff_cut.mpr ⟨items, hc, hd, rfl⟩] at he
    cases he
  · intro h
    cases hr : ofLines name lines with
    | error e => exact ⟨e, rfl⟩
    | ok doc =>
      obtain ⟨items, hc, hd, -⟩ := ofLines_eq_ok_iff_cut.mp hr
      exact absurd ⟨items, hc, hd⟩ h

end Packaging.Document
