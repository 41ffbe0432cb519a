import Packaging.Markup.Block
import Packaging.Proofs.Text.Cut
import Packaging.Proofs.Text.Trim

/-! The lines of a description in blocks. A block takes the lines of its kind up to the first of
another kind or a blank one, so the blocks hold the lines in their order, there is one way to cut the
lines into them, and neighbours of one kind have a blank line between them. -/

namespace Packaging.Markup

open Text (AllBlank Trimmed trim)

/-! ## Lines -/

namespace Line

/-- A line with a marker in front is an item, and any other that is not blank is words. -/
inductive Says (t : Text) : Line → Prop
  | blank : AllBlank t → Says t .blank
  | item {m r : Text} : m ∈ bullets → trim t = m ++ r → Says t (.item (trim r))
  | words : ¬AllBlank t → (∀ m ∈ bullets, ¬m <+: trim t) → Says t (.words (trim t))

theorem bullet_eq {m : Text} (h : m ∈ bullets) : ∃ c, Text.isBlank c = false ∧ m = [c, ' '] := by
  simp only [bullets, List.mem_cons, List.not_mem_nil, or_false] at h
  rcases h with rfl | rfl | rfl
  · exact ⟨'*', by decide, rfl⟩
  · exact ⟨'-', by decide, rfl⟩
  · exact ⟨'+', by decide, rfl⟩

theorem bullet_unique {m m' r r' : Text} (hm : m ∈ bullets) (hm' : m' ∈ bullets)
    (h : m ++ r = m' ++ r') : m = m' ∧ r = r' := by
  obtain ⟨c, -, rfl⟩ := bullet_eq hm
  obtain ⟨d, -, rfl⟩ := bullet_eq hm'
  exact List.append_inj h rfl

/-- The first marker that a text starts with is the only one. -/
theorem findSome?_bullets {t m r : Text} (hm : m ∈ bullets) (h : t = m ++ r) :
    bullets.findSome? (Text.after? · t) = some r := by
  cases hf : bullets.findSome? (Text.after? · t) with
  | none =>
    have := List.findSome?_eq_none_iff.mp hf m hm
    rw [Text.after?_eq_some_iff.mpr h] at this
    cases this
  | some r' =>
    obtain ⟨m', hm', hr'⟩ := List.exists_of_findSome?_eq_some hf
    rw [Text.after?_eq_some_iff, h] at hr'
    rw [(bullet_unique hm hm' hr').2]

theorem ofText_of_says {t : Text} {l : Line} (h : Says t l) : ofText t = l := by
  unfold ofText
  cases h with
  | blank hb => simp [Text.trim_eq_nil_iff.mpr hb]
  | @item m r hm he =>
    have hne : trim t ≠ [] := by
      obtain ⟨c, -, rfl⟩ := bullet_eq hm
      rw [he]
      nofun
    simp [findSome?_bullets hm he, hne]
  | words hb hn =>
    have hnone : bullets.findSome? (Text.after? · (trim t)) = none :=
      List.findSome?_eq_none_iff.mpr fun m hm => Text.after?_eq_none_iff.mpr (hn m hm)
    simp [hnone, Text.trim_eq_nil_iff.not.mpr hb]

theorem exists_says (t : Text) : ∃ l, Says t l := by
  by_cases hb : AllBlank t
  · exact ⟨_, .blank hb⟩
  · by_cases hm : ∃ m ∈ bullets, m <+: trim t
    · obtain ⟨m, hm, r, hr⟩ := hm
      exact ⟨_, .item hm hr.symm⟩
    · exact ⟨_, .words hb fun m h hp => hm ⟨m, h, hp⟩⟩

theorem ofText_eq_iff {t : Text} {l : Line} : ofText t = l ↔ Says t l := by
  refine ⟨fun h => ?_, ofText_of_says⟩
  obtain ⟨l', hl'⟩ := exists_says t
  rwa [← h, ofText_of_says hl']

theorem ofText_eq_blank_iff {t : Text} : ofText t = .blank ↔ AllBlank t := by
  rw [ofText_eq_iff]
  refine ⟨fun h => ?_, .blank⟩
  cases h
  assumption

/-- What the line says, without the marker. -/
def text? : Line → Option Text
  | .blank => none
  | .item t => some t
  | .words t => some t

/-- A marker is never all of a line, as the blank at its end would be trimmed away. -/
theorem Says.of_text? {t u : Text} {l : Line} (h : Says t l) (hu : l.text? = some u) :
    Trimmed u ∧ u ≠ [] := by
  cases h with
  | blank _ => cases hu
  | @item m r hm he =>
    obtain rfl := Option.some.inj hu
    refine ⟨Text.trimmed_trim r, fun hr => ?_⟩
    obtain ⟨c, -, rfl⟩ := bullet_eq hm
    have hblank : AllBlank (' ' :: r) := List.forall_mem_cons.mpr
      ⟨by decide, Text.trim_eq_nil_iff.mp hr⟩
    have hlast := (Text.trimmed_trim t).last
    rw [he, List.cons_append, List.singleton_append,
      List.getLast?_cons_of_ne_nil (List.cons_ne_nil _ _)] at hlast
    obtain ⟨d, hd⟩ := Option.isSome_iff_exists.mp
      (List.getLast?_isSome.mpr (List.cons_ne_nil ' ' r))
    have := hblank d (List.mem_of_getLast? hd)
    rw [hlast d hd] at this
    cases this
  | words hb _ =>
    obtain rfl := Option.some.inj hu
    exact ⟨Text.trimmed_trim t, mt Text.trim_eq_nil_iff.mp hb⟩

end Line

/-! ## Blocks -/

namespace Block

def isList : Block → Bool
  | .paragraph _ => false
  | .bullets _ => true

def texts : Block → List Text
  | .paragraph ls => ls
  | .bullets ts => ts

/-- The line that the block takes for a text. -/
def line : Block → Text → Line
  | .paragraph _ => .words
  | .bullets _ => .item

/-- The lines that the block was made of. -/
def lines (b : Block) : List Line := b.texts.map b.line

def Takes (b : Block) (l : Line) : Prop := ∃ t, l = b.line t

/-- The block with further texts. -/
def more : Block → List Text → Block
  | .paragraph ls, ts => .paragraph (ls ++ ts)
  | .bullets us, ts => .bullets (us ++ ts)

/-- A block of the same kind, before its first text. -/
def bare : Block → Block
  | .paragraph _ => .paragraph []
  | .bullets _ => .bullets []

@[simp] theorem texts_more (b : Block) (ts : List Text) : (b.more ts).texts = b.texts ++ ts := by
  cases b <;> rfl

@[simp] theorem line_more (b : Block) (ts : List Text) : (b.more ts).line = b.line := by
  cases b <;> rfl

@[simp] theorem lines_more (b : Block) (ts : List Text) :
    (b.more ts).lines = b.lines ++ ts.map b.line := by
  simp [lines]

@[simp] theorem line_bare (b : Block) : b.bare.line = b.line := by
  cases b <;> rfl

@[simp] theorem lines_bare (b : Block) : b.bare.lines = [] := by
  cases b <;> rfl

@[simp] theorem bare_more (b : Block) : b.bare.more b.texts = b := by
  cases b <;> rfl

theorem lines_ne_nil_iff {b : Block} : b.lines ≠ [] ↔ b.texts ≠ [] := by
  simp [lines]

theorem line_eq_of_isList {a b : Block} (h : a.isList = b.isList) : a.line = b.line := by
  cases a <;> cases b <;> first | rfl | cases h

theorem line_ne_blank (b : Block) (t : Text) : b.line t ≠ .blank := by
  cases b <;> nofun

theorem not_takes_blank (b : Block) : ¬b.Takes .blank := fun ⟨t, ht⟩ => b.line_ne_blank t ht.symm

theorem exists_takes {l : Line} (h : l ≠ .blank) : ∃ b : Block, b.Takes l := by
  cases l with
  | blank => exact absurd rfl h
  | item t => exact ⟨.bullets [], t, rfl⟩
  | words t => exact ⟨.paragraph [], t, rfl⟩

/-- The lines are those of the blocks in their order, with blank ones around blocks. Each block goes
on to the first line that it does not take. -/
inductive Gathered : List Line → List Block → Prop
  | nil : Gathered [] []
  | blank {ls : List Line} {bs : List Block} : Gathered ls bs → Gathered (.blank :: ls) bs
  | block {b : Block} {ls : List Line} {bs : List Block} : b.lines ≠ [] →
      (∀ l ∈ ls.head?, ¬b.Takes l) → Gathered ls bs → Gathered (b.lines ++ ls) (b :: bs)

/-! ## Gathering -/

theorem gather_line (b : Block) (t : Text) (ls : List Line) :
    gather (some b) (b.line t :: ls) = gather (some (b.more [t])) ls := by
  cases b <;> rfl

theorem gather_lines (b : Block) (ts : List Text) (ls : List Line) :
    gather (some b) (ts.map b.line ++ ls) = gather (some (b.more ts)) ls := by
  induction ts generalizing b with
  | nil => cases b <;> simp [more]
  | cons t ts ih =>
    have := ih (b.more [t])
    rw [line_more] at this
    rw [List.map_cons, List.cons_append, gather_line, this]
    cases b <;> simp [more]

/-- The first line of a block begins it. -/
theorem gather_none_line (b : Block) (t : Text) (ls : List Line) :
    gather none (b.line t :: ls) = gather (some (b.bare.more [t])) ls := by
  cases b <;> rfl

theorem gather_none_lines {b : Block} (h : b.lines ≠ []) (ls : List Line) :
    gather none (b.lines ++ ls) = gather (some b) ls := by
  obtain ⟨t, ts, ht⟩ := List.exists_cons_of_ne_nil (lines_ne_nil_iff.mp h)
  have hrest := gather_lines (b.bare.more [t]) ts ls
  have hall : (b.bare.more [t]).more ts = b := by
    rw [← bare_more b, ht]
    cases b <;> rfl
  rw [line_more, line_bare, hall] at hrest
  rw [lines, ht, List.map_cons, List.cons_append, gather_none_line, hrest]

/-- The pending block ends before a line that it does not take. -/
theorem gather_apart {pending : Option Block} {ls : List Line}
    (h : ∀ b ∈ pending, ∀ l ∈ ls.head?, ¬b.Takes l) :
    gather pending ls = pending.toList ++ gather none ls := by
  cases pending with
  | none => rfl
  | some b =>
    cases ls with
    | nil => rfl
    | cons l ls =>
      have hl := h b rfl l rfl
      cases l with
      | blank => rfl
      | item t =>
        cases b with
        | paragraph _ => rfl
        | bullets _ => exact absurd ⟨t, rfl⟩ hl
      | words t =>
        cases b with
        | paragraph _ => exact absurd ⟨t, rfl⟩ hl
        | bullets _ => rfl

theorem Gathered.behind {pending : Option Block} {ls : List Line} {bs : List Block}
    (h : Gathered ls bs) (hp : ∀ b ∈ pending, b.lines ≠ [])
    (hl : ∀ b ∈ pending, ∀ l ∈ ls.head?, ¬b.Takes l) :
    Gathered (pending.toList.flatMap lines ++ ls) (pending.toList ++ bs) := by
  cases pending with
  | none => exact h
  | some b =>
    rw [Option.toList_some, List.flatMap_singleton]
    exact .block (hp b rfl) (hl b rfl) h

/-- The lines of the pending block come before the others. -/
theorem gathered_gather (pending : Option Block) (hp : ∀ b ∈ pending, b.lines ≠ [])
    (ls : List Line) : Gathered (pending.toList.flatMap lines ++ ls) (gather pending ls) := by
  induction ls generalizing pending with
  | nil =>
    rw [gather_apart (by simp)]
    exact Gathered.nil.behind hp (by simp)
  | cons l ls ih =>
    by_cases hl : l = .blank
    · subst hl
      have hstop : ∀ b ∈ pending, ∀ l ∈ (Line.blank :: ls).head?, ¬b.Takes l := by
        rintro b - l hl
        obtain rfl := Option.some.inj hl
        exact b.not_takes_blank
      rw [gather_apart hstop]
      exact (Gathered.blank (ih none nofun)).behind hp hstop
    · by_cases ht : ∃ b ∈ pending, b.Takes l
      · obtain ⟨b, rfl, t, rfl⟩ := ht
        rw [gather_line]
        have := ih (some (b.more [t])) (by simp)
        simpa using this
      · obtain ⟨b, t, rfl⟩ := exists_takes hl
        have hstop : ∀ c ∈ pending, ∀ l ∈ (b.line t :: ls).head?, ¬c.Takes l := by
          intro c hc l hl hcl
          obtain rfl := Option.some.inj hl
          exact ht ⟨c, hc, hcl⟩
        rw [gather_apart hstop, gather_none_line]
        have := ih (some (b.bare.more [t])) (by simp)
        refine Gathered.behind ?_ hp hstop
        simpa using this

theorem Gathered.gather_eq {ls : List Line} {bs : List Block} (h : Gathered ls bs) :
    gather none ls = bs := by
  induction h with
  | nil => rfl
  | blank _ ih => exact ih
  | @block b ls bs hne hstop _ ih =>
    rw [gather_none_lines hne, gather_apart (by simpa using hstop), ih]
    rfl

/-- The blocks of a description are the one way to gather its lines. -/
theorem ofLines_eq_iff {ls : List Text} {bs : List Block} :
    ofLines ls = bs ↔ Gathered (ls.map Line.ofText) bs := by
  refine ⟨fun h => ?_, Gathered.gather_eq⟩
  have := gathered_gather none nofun (ls.map Line.ofText)
  rwa [← h]

/-! ## What is gathered -/

namespace Gathered

variable {ls : List Line} {bs : List Block}

theorem lines_ne_nil (h : Gathered ls bs) : ∀ b ∈ bs, b.lines ≠ [] := by
  induction h with
  | nil => nofun
  | blank _ ih => exact ih
  | block hne _ _ ih => exact List.forall_mem_cons.mpr ⟨hne, ih⟩

/-- No line is lost or comes twice, and none changes its place. -/
theorem flatMap_lines (h : Gathered ls bs) : bs.flatMap lines = ls.filter (· ≠ .blank) := by
  induction h with
  | nil => rfl
  | blank _ ih => exact ih
  | @block b ls bs _ _ _ ih =>
    have hb : b.lines.filter (· ≠ .blank) = b.lines := by
      rw [List.filter_eq_self, lines, List.forall_mem_map]
      exact fun t _ => decide_eq_true (b.line_ne_blank t)
    rw [List.flatMap_cons, ih, List.filter_append, hb]

/-- Lines with a blank one between them are gathered apart. -/
theorem append (h : Gathered ls bs) {ms : List Line} {cs : List Block} (h' : Gathered ms cs) :
    Gathered (ls ++ .blank :: ms) (bs ++ cs) := by
  induction h with
  | nil => exact .blank h'
  | blank _ ih => exact .blank ih
  | @block b ls bs hne hstop _ ih =>
    rw [List.append_assoc]
    refine .block hne (fun l hl => ?_) ih
    cases ls with
    | nil =>
      obtain rfl := Option.some.inj hl
      exact b.not_takes_blank
    | cons m ls => exact hstop l hl

/-- A block does not end before a line of its kind, so a blank line ends it before one that is
alike. -/
theorem exists_blank (h : Gathered ls bs) {before after : List Block} {a b : Block}
    (hbs : bs = before ++ a :: b :: after) (hk : a.isList = b.isList) :
    ∃ front back, ls = front ++ .blank :: back ∧ Gathered front (before ++ [a]) ∧
      Gathered back (b :: after) := by
  induction h generalizing before with
  | nil => simp at hbs
  | blank _ ih =>
    obtain ⟨front, back, rfl, hf, hb⟩ := ih hbs
    exact ⟨.blank :: front, back, rfl, .blank hf, hb⟩
  | @block c ls bs hne hstop h ih =>
    cases before with
    | nil =>
      obtain ⟨rfl, rfl⟩ := List.cons.inj hbs
      cases h with
      | blank h => exact ⟨c.lines, _, rfl, by simpa using block hne (by simp) nil, h⟩
      | @block _ ls bs hne' _ _ =>
        obtain ⟨t, ts, ht⟩ := List.exists_cons_of_ne_nil (lines_ne_nil_iff.mp hne')
        have hhead : c.line t ∈ (b.lines ++ ls).head? := by
          rw [lines, ht, line_eq_of_isList hk]
          rfl
        exact absurd ⟨t, rfl⟩ (hstop _ hhead)
    | cons d before =>
      obtain ⟨rfl, rfl⟩ := List.cons.inj hbs
      obtain ⟨front, back, rfl, hf, hb⟩ := ih rfl
      refine ⟨c.lines ++ front, back, by simp, .block hne (fun l hl => ?_) hf, hb⟩
      cases front with
      | nil => cases hl
      | cons m front => exact hstop l hl

end Gathered

end Block

end Packaging.Markup
