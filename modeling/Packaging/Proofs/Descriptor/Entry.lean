import Packaging.Descriptor.Write
import Packaging.Proofs.Document.Grammar
import Packaging.Proofs.Text.Lines

/-! A written value as an item of a document. The line of an entry gives its key the value as it was
quoted, and a block holds its lines four spaces in; so what is read is known without reading. -/

namespace Packaging

open Text (OwnLine Trimmed AllBlank ended trim)

/-! ## Keys -/

/-- A key of letters. -/
structure IsKey (key : Text) : Prop where
  ne_nil : key ≠ []
  letters : ∀ c ∈ key, c.isAlpha = true

theorem isBlank_of_isAlpha {c : Char} (h : c.isAlpha = true) : Text.isBlank c = false := by
  change (decide (65 ≤ c.val ∧ c.val ≤ 90) ||
    (decide (97 ≤ c.val) && decide (c.val ≤ 122))) = true at h
  simp only [Bool.or_eq_true, Bool.and_eq_true, decide_eq_true_eq, UInt32.le_iff_toNat_le] at h
  change (65 ≤ c.toNat ∧ c.toNat ≤ 90) ∨ (97 ≤ c.toNat ∧ c.toNat ≤ 122) at h
  simp only [Text.isBlank, Bool.or_eq_false_iff, Bool.and_eq_false_iff, decide_eq_false_iff_not,
    beq_eq_false_iff_ne]
  omega

theorem IsKey.not_mem {key : Text} (h : IsKey key) {c : Char} (hc : c.isAlpha = false) :
    c ∉ key := by
  intro hm
  rw [h.letters c hm] at hc
  cases hc

theorem IsKey.trimmed {key : Text} (h : IsKey key) : Trimmed key :=
  ⟨fun _ hc => isBlank_of_isAlpha (h.letters _ (List.mem_of_mem_head? hc)),
    fun _ hc => isBlank_of_isAlpha (h.letters _ (List.mem_of_getLast? hc))⟩

/-- A line that starts like a key is not passed over. -/
theorem IsKey.not_skipped {key rest line : Text} (h : IsKey key)
    (hl : Text.trim line = key ++ rest) : ¬Document.IsSkipped line := by
  obtain ⟨c, r, hc⟩ := List.exists_cons_of_ne_nil h.ne_nil
  have hne : ∀ d : Char, d.isAlpha = false → c ≠ d := by
    intro d hd he
    have := h.letters c (by rw [hc]; exact List.mem_cons_self ..)
    rw [he, hd] at this
    cases this
  unfold Document.IsSkipped
  rw [hl, hc]
  rintro (he | he | he)
  · cases he
  · exact hne '#' rfl (List.cons_prefix_cons.mp he).1.symm
  · exact hne '/' rfl (List.cons_prefix_cons.mp he).1.symm

/-! ## The line of an entry -/

namespace Written

/-- The line that `entryLine` writes, without its line feed. -/
def assignment (key value : Text) : Text := key ++ ' ' :: '=' :: ' ' :: value

theorem entryLine_eq (key value : Text) : entryLine key value = assignment key value ++ ['\n'] := by
  simp only [entryLine, assignment, List.append_assoc, List.cons_append]

theorem assigns_assignment {key : Text} (h : IsKey key) (value : Text) :
    Document.Assigns (assignment key value) key (Text.trim value) := by
  obtain ⟨b, hb, he⟩ := Text.exists_trimEnd (' ' :: value)
  have hmid : Trimmed (key ++ ' ' :: '=' :: Text.trimEnd (' ' :: value)) := by
    refine Text.trimmed_append h.trimmed.head ?_ h.ne_nil (List.cons_ne_nil _ _)
    rw [List.getLast?_cons_cons]
    by_cases hv : Text.trimEnd (' ' :: value) = []
    · rw [hv]
      intro c hc
      obtain rfl := Option.some.inj hc
      decide
    · rw [List.getLast?_cons_of_ne_nil hv]
      exact Text.last_trimEnd _
  have hline : assignment key value =
      [] ++ (key ++ ' ' :: '=' :: Text.trimEnd (' ' :: value)) ++ b := by
    have := congrArg (key ++ ' ' :: '=' :: ·) he
    simpa only [assignment, List.nil_append, List.append_assoc, List.cons_append] using this
  have htrim := hmid.trim_between Text.allBlank_nil hb
  rw [← hline] at htrim
  refine ⟨h.not_skipped htrim, h.ne_nil, key ++ [' '], Text.trimEnd (' ' :: value), ?_, ?_, ?_, ?_⟩
  · rw [htrim, List.append_assoc]
    rfl
  · rw [List.mem_append, not_or]
    exact ⟨h.not_mem rfl, by decide⟩
  · rw [Text.trim_concat rfl, h.trimmed.trim_eq]
  · rw [Text.trim_trimEnd, Text.trim_cons rfl]

theorem ownLine_assignment {key value : Text} (h : IsKey key) (hv : OwnLine value) :
    OwnLine (assignment key value) := by
  have hne : '\n' ∉ key := h.not_mem rfl
  have hs : assignment key value = (key ++ [' ', '=']) ++ ' ' :: value := by
    simp [assignment]
  rw [hs]
  refine OwnLine.append ?_ ⟨?_, ?_⟩ (List.cons_ne_nil _ _)
  · rw [List.mem_append, not_or]
    exact ⟨hne, by decide⟩
  · rw [List.mem_cons, not_or]
    exact ⟨by decide, hv.feedless⟩
  · cases value with
    | nil => decide
    | cons c r =>
      rw [List.getLast?_cons_cons]
      exact hv.last

/-! ## Quotes -/

theorem quoted_cases (t : Text) :
    (∃ q q' r, Document.IsQuote q ∧ Document.IsQuote q' ∧ q' ≠ q ∧ t = q :: r ++ [q] ∧
      quoted t = q' :: t ++ [q']) ∨
    quoted t = t ∧ ∀ q r, Document.IsQuote q → t ≠ q :: r ++ [q] := by
  cases t with
  | nil => exact .inr ⟨rfl, by intro q r _ he; cases he⟩
  | cons q r =>
    by_cases hl : r.getLast? = some q
    · obtain ⟨s, hs⟩ := List.getLast?_eq_some_iff.mp hl
      by_cases h1 : q = '"'
      · left
        refine ⟨q, '\'', s, .inl h1, .inr rfl, by rw [h1]; decide, by rw [hs]; rfl, ?_⟩
        rw [quoted, if_pos hl, if_pos h1]
      · by_cases h2 : q = '\''
        · left
          refine ⟨q, '"', s, .inr h2, .inl rfl, by rw [h2]; decide, by rw [hs]; rfl, ?_⟩
          rw [quoted, if_pos hl, if_neg h1, if_pos h2]
        · right
          refine ⟨by rw [quoted, if_pos hl, if_neg h1, if_neg h2], ?_⟩
          intro p w hp he
          obtain ⟨rfl, -⟩ := List.cons.inj he
          exact hp.elim h1 h2
    · right
      refine ⟨by rw [quoted, if_neg hl], ?_⟩
      intro p w hp he
      obtain ⟨rfl, he⟩ := List.cons.inj he
      exact hl (by rw [he]; exact List.getLast?_concat)

/-- Quoting is undone by reading. -/
theorem unquoted_quoted (t : Text) : Document.unquoted (quoted t) = t := by
  rcases quoted_cases t with ⟨q, q', r, hq, hq', -, -, he⟩ | ⟨he, hn⟩
  · rw [he]
    exact Document.unquotes_iff.mp (.pair hq')
  · rw [he]
    exact Document.unquotes_iff.mp (.bare fun q w hq => hn q w hq)

theorem isBlank_of_isQuote {q : Char} (h : Document.IsQuote q) : Text.isBlank q = false := by
  rcases h with rfl | rfl <;> decide

theorem trimmed_of_quotes {q : Char} (h : Document.IsQuote q) (r : Text) :
    Trimmed (q :: r ++ [q]) := by
  refine ⟨?_, ?_⟩
  · intro c hc
    obtain rfl := Option.some.inj hc
    exact isBlank_of_isQuote h
  · intro c hc
    rw [List.getLast?_concat] at hc
    obtain rfl := Option.some.inj hc
    exact isBlank_of_isQuote h

theorem trimmed_quoted {t : Text} (h : Trimmed t) : Trimmed (quoted t) := by
  rcases quoted_cases t with ⟨q, q', r, hq, hq', -, -, he⟩ | ⟨he, -⟩
  · rw [he]
    exact trimmed_of_quotes hq' t
  · rwa [he]

/-- Only a text with blanks around it can be written without quotes that it needs. -/
theorem quoted_of_not_trimmed {t : Text} (h : ¬Trimmed t) : quoted t = t := by
  rcases quoted_cases t with ⟨q, q', r, hq, -, -, ht, -⟩ | ⟨he, -⟩
  · rw [ht] at h
    exact absurd (trimmed_of_quotes hq r) h
  · exact he

theorem ownLine_quoted {t : Text} (h : OwnLine t) : OwnLine (quoted t) := by
  rcases quoted_cases t with ⟨q, q', r, -, hq', -, -, he⟩ | ⟨he, -⟩
  · rw [he]
    refine ⟨?_, ?_⟩
    · rw [List.cons_append, List.mem_cons, List.mem_append, List.mem_singleton]
      rintro (hc | hc | hc)
      · rcases hq' with rfl | rfl <;> cases hc
      · exact h.feedless hc
      · rcases hq' with rfl | rfl <;> cases hc
    · rw [List.getLast?_concat]
      rcases hq' with rfl | rfl <;> decide
  · rwa [he]

/-! ## The item of an entry -/

/-- A list that goes on one line is written as the text on it. -/
def laid : Written → Written
  | .line t => .line t
  | .list [] => .line []
  | .list [t] => if t.contains ';' then .list [t] else .line t
  | .list items => .list items

theorem entry_of_laid {w : Written} (key : Text) :
    w.entry key = match w.laid with
      | .line t => entryLine key (quoted t)
      | .list ts => block key ts := by
  cases w with
  | line t => rfl
  | list ts =>
    match ts with
    | [] => rfl
    | [t] =>
      rw [entry, laid]
      by_cases ht : t.contains ';' = true
      · rw [if_pos ht, if_pos ht]
      · rw [if_neg ht, if_neg ht]
    | _ :: _ :: _ => rfl

/-- A line in a block. -/
def indented (t : Text) : Text := if t.isEmpty then [] else ' ' :: ' ' :: ' ' :: ' ' :: t

theorem itemLine_eq (t : Text) : itemLine t = indented t ++ ['\n'] := by
  unfold itemLine
  rw [indented]
  split <;> rfl

theorem flatMap_itemLine (ts : List Text) : ts.flatMap itemLine = ended (ts.map indented) := by
  unfold ended
  rw [List.flatMap_map]
  exact List.flatMap_congr fun t _ => itemLine_eq t

theorem block_eq (key : Text) (ts : List Text) :
    block key ts = ended (assignment key Document.blockMark :: ts.map indented ++
      [Document.blockMark]) := by
  unfold block
  rw [entryLine_eq, flatMap_itemLine, List.cons_append, Text.ended_cons, Text.ended_append]
  simp [ended]

/-- What a block gives its key. -/
def blockValue (ts : List Text) : Text := Text.trim ('\n' :: ended (ts.map indented))

/-- What an entry gives its key. -/
def value (w : Written) : Text :=
  match w.laid with
  | .line t => Document.unquoted (Text.trim (quoted t))
  | .list ts => blockValue ts

/-- No text of the value stands for more than itself in a document. -/
def Clean (w : Written) : Prop :=
  match w.laid with
  | .line t => OwnLine t ∧ ¬Document.blockMark <+: Text.trim (quoted t)
  | .list ts => ∀ t ∈ ts, OwnLine t ∧ ¬Document.blockMark <:+: t

/-- The item that an entry is. -/
def item (key : Text) (w : Written) : Document.Item :=
  match w.laid with
  | .line t => .entry (assignment key (quoted t)) key w.value
  | .list ts =>
    .block (assignment key Document.blockMark) (ts.map indented) Document.blockMark key w.value

theorem ownLine_indented {t : Text} (h : OwnLine t) : OwnLine (indented t) := by
  unfold indented
  split
  · exact Text.ownLine_nil
  · rename_i hne
    exact OwnLine.append (a := [' ', ' ', ' ', ' ']) (by decide) h (by simpa using hne)

theorem mark_infix_space {t : Text} (h : Document.blockMark <:+: ' ' :: t) :
    Document.blockMark <:+: t := by
  rcases List.infix_cons_iff.mp h with hp | hi
  · have := (List.cons_prefix_cons.mp hp).1
    cases this
  · exact hi

theorem not_mark_indented {t : Text} (h : ¬Document.blockMark <:+: t) :
    ¬Document.blockMark <:+: indented t := by
  unfold indented
  split
  · rename_i he
    rwa [List.isEmpty_iff.mp he] at h
  · exact fun hi => h (mark_infix_space (mark_infix_space (mark_infix_space (mark_infix_space hi))))

theorem ended_item (key : Text) (w : Written) : ended (w.item key).lines = w.entry key := by
  rw [entry_of_laid, item]
  cases w.laid with
  | line t =>
    show ended [assignment key (quoted t)] = entryLine key (quoted t)
    rw [Text.ended_cons, entryLine_eq]
    rfl
  | list ts => exact (block_eq key ts).symm

theorem entry?_item (key : Text) (w : Written) (n : Nat) :
    Document.Item.entry? n (w.item key) = some ⟨key, w.value, n⟩ := by
  unfold item
  cases w.laid <;> rfl

theorem valid_item {key : Text} (hk : IsKey key) {w : Written} (h : w.Clean) :
    (w.item key).Valid := by
  unfold item
  rw [value]
  unfold Clean at h
  cases hl : w.laid with
  | line t =>
    rw [hl] at h
    exact .entry (assigns_assignment hk _) (.plain h.2 (Document.unquotes_iff.mpr rfl))
  | list ts =>
    rw [hl] at h
    have hb : ∀ l ∈ ts.map indented, ¬Document.blockMark <:+: l := by
      intro l hl
      obtain ⟨t, ht, rfl⟩ := List.mem_map.mp hl
      exact not_mark_indented (h t ht).2
    have hv : blockValue ts = Text.trim (Text.unlines ([] :: ts.map indented ++ [[]])) := by
      rw [Text.unlines_concat, List.append_nil, Text.ended_cons]
      rfl
    simp only [hv]
    exact .block (assigns_assignment hk Document.blockMark) (by decide) hb
      (Text.before_nil_iff.mpr (List.prefix_refl _))

/-- The texts of a value. -/
def texts : Written → List Text
  | .line t => [t]
  | .list ts => ts

/-- A value is laid out with the texts that it has; only an empty list is laid out as a text that it
does not have. -/
theorem laid_cases (w : Written) :
    w.laid = .list w.texts ∨ ∃ t, w.laid = .line t ∧ (w.texts = [t] ∨ t = [] ∧ w.texts = []) := by
  cases w with
  | line t => exact .inr ⟨t, rfl, .inl rfl⟩
  | list ts =>
    match ts with
    | [] => exact .inr ⟨[], rfl, .inr ⟨rfl, rfl⟩⟩
    | [t] =>
      by_cases ht : t.contains ';' = true
      · exact .inl (if_pos ht)
      · exact .inr ⟨t, if_neg ht, .inl rfl⟩
    | _ :: _ :: _ => exact .inl rfl

theorem Clean.ownLine {w : Written} (h : w.Clean) : ∀ t ∈ w.texts, OwnLine t := by
  unfold Clean at h
  rcases w.laid_cases with hl | ⟨t, hl, ht | ⟨-, ht⟩⟩
  · rw [hl] at h
    exact fun t ht => (h t ht).1
  · rw [hl] at h
    rw [ht]
    exact List.forall_mem_singleton.mpr h.1
  · rw [ht]
    nofun

theorem ownLine_item {key : Text} (hk : IsKey key) {w : Written} (h : ∀ t ∈ w.texts, OwnLine t) :
    ∀ l ∈ (w.item key).lines, OwnLine l := by
  unfold item
  rcases w.laid_cases with hl | ⟨t, hl, ht⟩
  · rw [hl]
    intro l hm
    rcases List.mem_append.mp hm with hm | hm
    · rcases List.mem_cons.mp hm with rfl | hm
      · exact ownLine_assignment hk ⟨by decide, by decide⟩
      · obtain ⟨t, ht, rfl⟩ := List.mem_map.mp hm
        exact ownLine_indented (h t ht)
    · rw [List.mem_singleton.mp hm]
      exact ⟨by decide, by decide⟩
  · have hown : OwnLine t := by
      rcases ht with ht | ⟨rfl, -⟩
      · exact h t (by rw [ht]; exact List.mem_singleton.mpr rfl)
      · exact Text.ownLine_nil
    rw [hl]
    intro l hm
    rw [List.mem_singleton.mp hm]
    exact ownLine_assignment hk (ownLine_quoted hown)

end Written

end Packaging
