import Packaging.Document.Read
import Packaging.Proofs.Text.Cut

/-! The grammar of a document: which lines are passed over, which hold an entry, and how a block
runs. It is stated on the texts alone, by where a character or a mark first stands, and a document
is a sequence of items that cover its lines. What one line is by itself, and the block that follows
an opening line, are read as the grammar says. -/

namespace Packaging.Document

open Text (Before)

/-! ## The grammar -/

/-- The line is blank or a comment. -/
def IsSkipped (line : Text) : Prop :=
  Text.trim line = [] ∨ ['#'] <+: Text.trim line ∨ ['/', '/'] <+: Text.trim line

/-- The line gives a value to a key that is not empty, on the two sides of its first `=`. -/
def Assigns (line key value : Text) : Prop :=
  ¬IsSkipped line ∧ key ≠ [] ∧
    ∃ k v, Text.trim line = k ++ '=' :: v ∧ '=' ∉ k ∧ key = Text.trim k ∧ value = Text.trim v

def IsQuote (c : Char) : Prop := c = '"' ∨ c = '\''

instance : DecidablePred IsQuote := fun c => inferInstanceAs (Decidable (c = '"' ∨ c = '\''))

/-- One pair of equal quotes around a value does not belong to it. -/
inductive Unquotes : Text → Text → Prop
  | pair {q : Char} {w : Text} : IsQuote q → Unquotes (q :: w ++ [q]) w
  | bare {v : Text} : (∀ q w, IsQuote q → v ≠ q :: w ++ [q]) → Unquotes v v

/-- What is written after the `=` gives the value without looking at further lines. -/
inductive OneLine : Text → Text → Prop
  | plain {v w : Text} : ¬blockMark <+: v → Unquotes v w → OneLine v w
  | closed {t u : Text} : Before blockMark u t → OneLine (blockMark ++ t) (Text.trim u)

inductive Item where
  | skipped (line : Text)
  | entry (line key value : Text)
  | block (opening : Text) (body : List Text) (closing key value : Text)

namespace Item

def lines : Item → List Text
  | skipped line => [line]
  | entry line _ _ => [line]
  | block opening body closing _ _ => opening :: body ++ [closing]

/-- The entry of an item whose first line is line `n`. -/
def entry? (n : Nat) : Item → Option Entry
  | skipped _ => none
  | entry _ key value => some ⟨key, value, n⟩
  | block _ _ _ key value => some ⟨key, value, n⟩

inductive Valid : Item → Prop
  | skipped {line : Text} : IsSkipped line → Valid (skipped line)
  | entry {line key v value : Text} : Assigns line key v → OneLine v value →
      Valid (entry line key value)
  | block {opening key first closing last : Text} {body : List Text} :
      Assigns opening key (blockMark ++ first) → ¬blockMark <:+: first →
      (∀ l ∈ body, ¬blockMark <:+: l) → Before blockMark last closing →
      Valid (block opening body closing key (Text.trim (Text.unlines (first :: body ++ [last]))))

end Item

/-- The items cover the lines in their order. -/
structure Cut (lines : List Text) (items : List Item) : Prop where
  cover : items.flatMap Item.lines = lines
  valid : ∀ i ∈ items, i.Valid

/-- The entries of items, the first line of which is line `n`. -/
def entriesFrom : Nat → List Item → List Entry
  | _, [] => []
  | n, i :: is => (i.entry? n).toList ++ entriesFrom (n + i.lines.length) is

/-! ## One value -/

theorem unquoted_cons (q : Char) (r : Text) :
    unquoted (q :: r) = if IsQuote q ∧ r.getLast? = some q then r.dropLast else q :: r := by
  unfold unquoted
  refine ite_congr ?_ (fun _ => rfl) (fun _ => rfl)
  simp [IsQuote]

theorem unquotes_iff {v w : Text} : Unquotes v w ↔ unquoted v = w := by
  constructor
  · intro h
    cases h with
    | @pair q _ hq =>
      have hl : (w ++ [q]).getLast? = some q := List.getLast?_concat
      rw [List.cons_append, unquoted_cons, if_pos ⟨hq, hl⟩, List.dropLast_concat]
    | bare hn =>
      cases v with
      | nil => rfl
      | cons q r =>
        rw [unquoted_cons, if_neg]
        intro hx
        obtain ⟨hq, hl⟩ := hx
        obtain ⟨w, rfl⟩ := List.getLast?_eq_some_iff.mp hl
        exact hn q w hq rfl
  · intro h
    cases v with
    | nil => subst h; exact .bare (by intro q w _ he; cases he)
    | cons q r =>
      rw [unquoted_cons] at h
      split at h
      · rename_i hc
        obtain ⟨w', rfl⟩ := List.getLast?_eq_some_iff.mp hc.2
        rw [List.dropLast_concat] at h
        subst h
        exact .pair hc.1
      · rename_i hc
        subst h
        refine .bare ?_
        intro q' w hq he
        obtain ⟨rfl, hr⟩ := List.cons.inj he
        exact hc ⟨hq, by rw [hr]; exact List.getLast?_concat⟩

namespace LineKind

theorem ofValue_of_not_mark {key v : Text} (h : ¬blockMark <+: v) :
    ofValue key v = .entry key (unquoted v) := by
  unfold ofValue
  rw [Text.after?_eq_none_iff.mpr h]

theorem ofValue_of_closed {key t u : Text} (h : Before blockMark u t) :
    ofValue key (blockMark ++ t) = .entry key (Text.trim u) := by
  unfold ofValue
  rw [Text.after?_eq_some_iff.mpr rfl]
  simp only [Text.before?_eq_some_iff.mpr h]

theorem ofValue_of_open {key t : Text} (h : ¬blockMark <:+: t) :
    ofValue key (blockMark ++ t) = .opening key t := by
  unfold ofValue
  rw [Text.after?_eq_some_iff.mpr rfl]
  simp only [Text.before?_eq_none_iff.mpr h]

/-- A value is over on its line, or opens a block. -/
theorem ofValue_cases (key v : Text) :
    (∃ w, OneLine v w ∧ ofValue key v = .entry key w) ∨
    (∃ t, v = blockMark ++ t ∧ ¬blockMark <:+: t ∧ ofValue key v = .opening key t) := by
  by_cases hm : blockMark <+: v
  · obtain ⟨t, rfl⟩ := hm
    cases hb : Text.before? blockMark t with
    | none =>
      have ht := Text.before?_eq_none_iff.mp hb
      exact .inr ⟨t, rfl, ht, ofValue_of_open ht⟩
    | some u =>
      have hu := Text.before?_eq_some_iff.mp hb
      exact .inl ⟨_, .closed hu, ofValue_of_closed hu⟩
  · exact .inl ⟨_, .plain hm (unquotes_iff.mpr rfl), ofValue_of_not_mark hm⟩

theorem ofValue_of_oneLine {key v w : Text} (h : OneLine v w) : ofValue key v = .entry key w := by
  cases h with
  | plain hm hq => rw [ofValue_of_not_mark hm, unquotes_iff.mp hq]
  | closed hu => exact ofValue_of_closed hu

/-! ## One line -/

theorem isSkipped_iff {line : Text} :
    IsSkipped line ↔ ((Text.trim line).isEmpty || isComment (Text.trim line)) = true := by
  simp only [IsSkipped, isComment, Bool.or_eq_true, List.isEmpty_iff, List.isPrefixOf_iff_prefix]

theorem ofLine_of_skipped {line : Text} (h : IsSkipped line) : ofLine line = .skipped := by
  unfold ofLine
  rw [if_pos (isSkipped_iff.mp h)]

theorem ofLine_of_assigns {line key v : Text} (h : Assigns line key v) :
    ofLine line = ofValue key v := by
  obtain ⟨hs, hne, k, w, he, hk, rfl, rfl⟩ := h
  rw [ofLine, if_neg (fun hc => hs (isSkipped_iff.mpr hc)),
    Text.splitFirst?_eq_some_iff.mpr ⟨he, hk⟩]
  simp [hne]

/-- A line is passed over, gives a value to a key, or is faulty. -/
theorem ofLine_cases (line : Text) :
    IsSkipped line ∨ (∃ key v, Assigns line key v) ∨ ∃ fault, ofLine line = .faulty fault := by
  by_cases hs : IsSkipped line
  · exact .inl hs
  · right
    have hc := fun hc => hs (isSkipped_iff.mpr hc)
    cases hf : Text.splitFirst? '=' (Text.trim line) with
    | none =>
      right
      unfold ofLine
      rw [if_neg hc, hf]
      exact ⟨_, rfl⟩
    | some p =>
      obtain ⟨k, v⟩ := p
      by_cases hk : Text.trim k = []
      · right
        unfold ofLine
        rw [if_neg hc, hf]
        simp [hk]
      · left
        obtain ⟨he, hn⟩ := Text.splitFirst?_eq_some_iff.mp hf
        exact ⟨_, _, hs, hk, k, v, he, hn, rfl, rfl⟩

end LineKind

/-! ## A block -/

theorem cutBlock_of_body {body : List Text} {closing last : Text} {rest : List Text}
    (hb : ∀ l ∈ body, ¬blockMark <:+: l) (hc : Before blockMark last closing) :
    cutBlock (body ++ closing :: rest) = some (body ++ [last], rest) := by
  induction body with
  | nil =>
    rw [List.nil_append, cutBlock, Text.before?_eq_some_iff.mpr hc]
    rfl
  | cons l body ih =>
    have hl := Text.before?_eq_none_iff.mpr (hb l (List.mem_cons_self ..))
    rw [List.cons_append, cutBlock, hl]
    simp only [ih fun x hx => hb x (List.mem_cons_of_mem _ hx)]
    rfl

theorem exists_body_of_cutBlock {ls cut rest : List Text} (h : cutBlock ls = some (cut, rest)) :
    ∃ body closing last, ls = body ++ closing :: rest ∧ cut = body ++ [last] ∧
      (∀ l ∈ body, ¬blockMark <:+: l) ∧ Before blockMark last closing := by
  induction ls generalizing cut with
  | nil => cases h
  | cons l ls ih =>
    unfold cutBlock at h
    cases hb : Text.before? blockMark l with
    | some t =>
      simp only [hb, Option.some.injEq, Prod.mk.injEq] at h
      obtain ⟨rfl, rfl⟩ := h
      exact ⟨[], l, t, rfl, rfl, List.forall_mem_nil _, Text.before?_eq_some_iff.mp hb⟩
    | none =>
      simp only [hb, Option.map_eq_some_iff, Prod.mk.injEq] at h
      obtain ⟨⟨cut', rest'⟩, hr, rfl, rfl⟩ := h
      obtain ⟨body, closing, last, rfl, rfl, hn, hc⟩ := ih hr
      refine ⟨l :: body, closing, last, rfl, rfl, ?_, hc⟩
      intro x hx
      rcases List.mem_cons.mp hx with rfl | hx
      · exact Text.before?_eq_none_iff.mp hb
      · exact hn x hx

theorem cutBlock_eq_none_iff {ls : List Text} :
    cutBlock ls = none ↔ ∀ l ∈ ls, ¬blockMark <:+: l := by
  induction ls with
  | nil => simp [cutBlock]
  | cons l ls ih =>
    rw [List.forall_mem_cons, ← ih, ← Text.before?_eq_none_iff, cutBlock]
    cases Text.before? blockMark l <;> simp

end Packaging.Document
