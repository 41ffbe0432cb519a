import Packaging.Proofs.Markup.Escape
import Packaging.Proofs.Text.Items

/-! Markup read as elements. A reader goes through the text character by character and knows which
elements are open; a tag opens an element, closes the innermost one, or is one by itself. What
stands between tags is words, and the blanks around them are layout. A text that leaves the reader
where it was has been read in full, and such texts may stand behind each other and inside of
elements. -/

namespace Packaging.Markup

open Text (isBlank AllBlank Trimmed)

inductive Node where
  | words (t : Text)
  | element (name : Text) (attributes : List (Text × Text)) (inner : List Node)

/-! ## Tags -/

inductive Tag where
  | opening (name : Text) (attributes : List (Text × Text))
  | closing (name : Text)
  | single (name : Text) (attributes : List (Text × Text))

/-- The name that a text starts with, and what stands behind it. -/
def name? (t : Text) : Option (Text × Text) :=
  if (t.takeWhile Char.isAlpha).isEmpty then none
  else some (t.takeWhile Char.isAlpha, t.dropWhile Char.isAlpha)

/-- The name of an attribute, from all that stands before its value. -/
def attributeName? (t : Text) : Option Text :=
  match (Text.after? [' '] t).bind name? with
  | some (name, ['=']) => some name
  | _ => none

/-- The attributes of a tag that is cut at its quotes, and what stands behind the last of them. -/
def attributes? : List Text → Option (List (Text × Text) × Text)
  | [] => none
  | [last] => some ([], last)
  | before :: value :: more =>
    match attributeName? before, attributes? more with
    | some name, some (as, last) => some ((name, unescape value) :: as, last)
    | _, _ => none

/-- What stands between the brackets of a tag. -/
def Tag.ofText? (t : Text) : Option Tag :=
  match Text.after? ['/'] t with
  | some t =>
    match name? t with
    | some (name, []) => some (.closing name)
    | _ => none
  | none =>
    (name? t).bind fun (name, rest) =>
      (attributes? (Text.cutAt (· == '"') rest)).bind fun (as, last) =>
        if last = [] then some (.opening name as)
        else if last = ['/'] then some (.single name as)
        else none

/-! ## The reader -/

/-- An element that is open, and what stands before it in the element around it. -/
structure Frame where
  name : Text
  attributes : List (Text × Text)
  before : List Node

/-- What was read since the last bracket, outside of tags or in one. -/
inductive Mode where
  | words (w : Text)
  | tag (t : Text)

structure Reader where
  outer : List Frame
  done : List Node
  mode : Mode

/-- The words as a piece of markup, if there are any. -/
def wordsOf (w : Text) : List Node :=
  if w.isEmpty then [] else [.words (unescape (Text.trimEnd w))]

namespace Reader

/-- The reader behind a tag. An element is closed by its own name alone. -/
def place (outer : List Frame) (done : List Node) : Tag → Option Reader
  | .opening name as => some ⟨⟨name, as, done⟩ :: outer, [], .words []⟩
  | .single name as => some ⟨outer, done ++ [.element name as []], .words []⟩
  | .closing name =>
    match outer with
    | [] => none
    | f :: fs =>
      if f.name = name then some ⟨fs, f.before ++ [.element name f.attributes done], .words []⟩
      else none

/-- The reader behind one more character. No tag holds another. -/
def step (r : Reader) (c : Char) : Option Reader :=
  match r.mode with
  | .words w =>
    if c = '<' then some ⟨r.outer, r.done ++ wordsOf w, .tag []⟩
    else if w.isEmpty && isBlank c then some r
    else some ⟨r.outer, r.done, .words (w ++ [c])⟩
  | .tag t =>
    if c = '<' then none
    else if c = '>' then (Tag.ofText? t).bind (place r.outer r.done)
    else some ⟨r.outer, r.done, .tag (t ++ [c])⟩

def run (r : Reader) : Text → Option Reader
  | [] => some r
  | c :: t => (r.step c).bind fun s => s.run t

/-- All that was read, if no tag and no element is open. -/
def nodes? (r : Reader) : Option (List Node) :=
  match r.outer, r.mode with
  | [], .words w => some (r.done ++ wordsOf w)
  | _, _ => none

end Reader

/-- Reads markup as what stands in it. -/
def read (t : Text) : Option (List Node) := ((Reader.mk [] [] (.words [])).run t).bind Reader.nodes?

/-! ## Names -/

mutual

/-- The names of the element and of all elements in it. -/
def Node.names : Node → List Text
  | .words _ => []
  | .element name _ inner => name :: namesOf inner

def namesOf : List Node → List Text
  | [] => []
  | n :: ns => n.names ++ namesOf ns

end

theorem namesOf_eq (ns : List Node) : namesOf ns = ns.flatMap Node.names := by
  induction ns with
  | nil => rfl
  | cons n ns ih => rw [namesOf, ih, List.flatMap_cons]

/-! ## Tags as they are written -/

structure IsName (t : Text) : Prop where
  ne_nil : t ≠ []
  alpha : ∀ c ∈ t, c.isAlpha = true

instance : DecidablePred IsName := fun t =>
  decidable_of_iff (t ≠ [] ∧ t.all Char.isAlpha = true)
    ⟨fun ⟨hne, ha⟩ => ⟨hne, List.all_eq_true.mp ha⟩,
      fun ⟨hne, ha⟩ => ⟨hne, List.all_eq_true.mpr ha⟩⟩

def attributeText (a : Text × Text) : Text := ' ' :: a.1 ++ '=' :: '"' :: escape a.2 ++ ['"']

def tagText (name : Text) (attributes : List (Text × Text)) : Text :=
  name ++ attributes.flatMap attributeText

def openingTag (name : Text) (attributes : List (Text × Text)) : Text :=
  '<' :: tagText name attributes ++ ['>']

def closingTag (name : Text) : Text := '<' :: '/' :: name ++ ['>']

def singleTag (name : Text) (attributes : List (Text × Text)) : Text :=
  '<' :: (tagText name attributes ++ ['/']) ++ ['>']

theorem name?_append {name r : Text} (h : IsName name) (hr : ∀ c ∈ r.head?, c.isAlpha = false) :
    name? (name ++ r) = some (name, r) := by
  have ht : (name ++ r).takeWhile Char.isAlpha = name := by
    rw [List.takeWhile_append_of_pos h.alpha]
    cases r with
    | nil => simp
    | cons c r => rw [List.takeWhile_cons_of_neg (by simp [hr c rfl]), List.append_nil]
  have hd : (name ++ r).dropWhile Char.isAlpha = r := by
    rw [List.dropWhile_append_of_pos h.alpha]
    cases r with
    | nil => rfl
    | cons c r => exact List.dropWhile_cons_of_neg (by simp [hr c rfl])
  simp [name?, ht, hd, h.ne_nil]

theorem IsName.not_mem {t : Text} (h : IsName t) {c : Char} (hc : c.isAlpha = false) : c ∉ t := by
  intro hm
  rw [h.alpha c hm] at hc
  cases hc

theorem not_mem_escape {c : Char} (h : isDelimiter c = true) (t : Text) : c ∉ escape t := by
  intro hm
  rw [(inert_escape t).undelimited c hm] at h
  cases h

/-- No blank comes to the ends by escaping. -/
theorem escapeChar_ends {c : Char} (h : isBlank c = false) :
    (∀ d ∈ (escapeChar c).head?, isBlank d = false) ∧
      ∀ d ∈ (escapeChar c).getLast?, isBlank d = false := by
  rcases escapeChar_cases c with he | ⟨he, -⟩
  · have hall : ∀ p ∈ entities, Trimmed p.1 := by decide
    exact ⟨(hall _ he).head, (hall _ he).last⟩
  · rw [he]
    simpa using h

theorem escapeChar_ne_nil (c : Char) : escapeChar c ≠ [] := by
  unfold escapeChar
  split <;> nofun

theorem escape_ne_nil {t : Text} (h : t ≠ []) : escape t ≠ [] := by
  obtain ⟨c, r, rfl⟩ := List.exists_cons_of_ne_nil h
  exact List.append_ne_nil_of_left_ne_nil (escapeChar_ne_nil c) _

theorem trimmed_escape {t : Text} (h : Trimmed t) : Trimmed (escape t) := by
  constructor
  · cases t with
    | nil => nofun
    | cons c r =>
      rw [escape_cons, List.head?_append_of_ne_nil _ (escapeChar_ne_nil c)]
      exact (escapeChar_ends (h.head c rfl)).1
  · rcases List.eq_nil_or_concat t with rfl | ⟨init, c, rfl⟩
    · nofun
    · rw [List.concat_eq_append] at h ⊢
      have he : escape (init ++ [c]) = escape init ++ escapeChar c := by simp [escape]
      rw [he, List.getLast?_append_of_ne_nil _ (escapeChar_ne_nil c)]
      exact (escapeChar_ends (h.last c List.getLast?_concat)).2

theorem cutAt_cons {sep : Char} {a : Text} (h : sep ∉ a) (b : Text) :
    Text.cutAt (· == sep) (a ++ sep :: b) = a :: Text.cutAt (· == sep) b := by
  rw [Text.cutAt_eq_splitOn, List.splitOn_append_cons_self, List.splitOn_eq_singleton h,
    Text.cutAt_eq_splitOn, List.singleton_append]

theorem attributeName?_append {name : Text} (h : IsName name) :
    attributeName? (' ' :: name ++ ['=']) = some name := by
  have hafter : Text.after? [' '] (' ' :: name ++ ['=']) = some (name ++ ['=']) :=
    Text.after?_eq_some_iff.mpr rfl
  have hn : name? (name ++ ['=']) = some (name, ['=']) := name?_append h (by simp)
  rw [attributeName?, hafter, Option.bind_some, hn]
  rfl

theorem attributes?_cutAt {attributes : List (Text × Text)} (h : ∀ a ∈ attributes, IsName a.1)
    {last : Text} (hl : '"' ∉ last) :
    attributes? (Text.cutAt (· == '"') (attributes.flatMap attributeText ++ last)) =
      some (attributes, last) := by
  induction attributes with
  | nil =>
    rw [List.flatMap_nil, List.nil_append, Text.cutAt_eq_splitOn, List.splitOn_eq_singleton hl]
    rfl
  | cons a as ih =>
    obtain ⟨hname, has⟩ := List.forall_mem_cons.mp h
    have hbefore : '"' ∉ ' ' :: a.1 ++ ['='] := by simp [hname.not_mem]
    have hvalue : '"' ∉ escape a.2 := not_mem_escape (by decide) _
    have heq : (a :: as).flatMap attributeText ++ last = (' ' :: a.1 ++ ['=']) ++ '"' ::
        (escape a.2 ++ '"' :: (as.flatMap attributeText ++ last)) := by
      simp [attributeText]
    rw [heq, cutAt_cons hbefore, cutAt_cons hvalue, attributes?, attributeName?_append hname,
      ih has]
    simp only [(inert_escape a.2).reads]

section

variable {name : Text} {attributes : List (Text × Text)} (hname : IsName name)

include hname

theorem name?_tagText (last : Text) (hl : ∀ c ∈ last.head?, c.isAlpha = false) :
    name? (tagText name attributes ++ last) =
      some (name, attributes.flatMap attributeText ++ last) := by
  rw [tagText, List.append_assoc]
  refine name?_append hname ?_
  cases attributes with
  | nil => exact hl
  | cons a as => simp [attributeText]

theorem after?_tagText (last : Text) :
    Text.after? ['/'] (tagText name attributes ++ last) = none := by
  rw [Text.after?_eq_none_iff, tagText]
  obtain ⟨c, r, rfl⟩ := List.exists_cons_of_ne_nil hname.ne_nil
  rw [List.cons_append, List.cons_append, List.cons_prefix_cons]
  rintro ⟨rfl, -⟩
  exact absurd (hname.alpha '/' (List.mem_cons_self ..)) (by decide)

theorem Tag.ofText?_closing : ofText? ('/' :: name) = some (.closing name) := by
  have hafter : Text.after? ['/'] ('/' :: name) = some name := Text.after?_eq_some_iff.mpr rfl
  have hn : name? (name ++ []) = some (name, []) := name?_append hname (by simp)
  rw [List.append_nil] at hn
  rw [ofText?, hafter]
  simp only [hn]

theorem Tag.ofText?_single (has : ∀ a ∈ attributes, IsName a.1) :
    ofText? (tagText name attributes ++ ['/']) = some (.single name attributes) := by
  rw [ofText?, after?_tagText hname]
  simp only [name?_tagText hname ['/'] (by simp), Option.bind_some]
  rw [attributes?_cutAt has (by decide)]
  rfl

theorem Tag.ofText?_opening (has : ∀ a ∈ attributes, IsName a.1) :
    ofText? (tagText name attributes) = some (.opening name attributes) := by
  rw [← List.append_nil (tagText name attributes), ofText?, after?_tagText hname]
  simp only [name?_tagText hname [] (by simp), Option.bind_some]
  rw [attributes?_cutAt has (by simp)]
  rfl

end

/-! ## Runs of the reader -/

namespace Reader

theorem run_append (r : Reader) (s t : Text) : r.run (s ++ t) = (r.run s).bind (·.run t) := by
  induction s generalizing r with
  | nil => rfl
  | cons c s ih =>
    rw [List.cons_append, run, run]
    cases r.step c with
    | none => rfl
    | some r => exact ih r

variable {outer : List Frame} {done : List Node}

theorem run_blank {t : Text} (h : AllBlank t) :
    (⟨outer, done, .words []⟩ : Reader).run t = some ⟨outer, done, .words []⟩ := by
  induction t with
  | nil => rfl
  | cons c t ih =>
    obtain ⟨hc, ht⟩ := List.forall_mem_cons.mp h
    have hne : c ≠ '<' := by rintro rfl; cases hc
    rw [run, step]
    simpa [hc, hne] using ih ht

/-- Once words have begun, all characters outside of tags belong to them. -/
theorem run_words {w t : Text} (hw : w ≠ []) (ht : '<' ∉ t) :
    (⟨outer, done, .words w⟩ : Reader).run t = some ⟨outer, done, .words (w ++ t)⟩ := by
  induction t generalizing w with
  | nil => rw [List.append_nil]; rfl
  | cons c t ih =>
    obtain ⟨hc, ht⟩ := not_or.mp (List.mem_cons.not.mp ht)
    rw [run, step]
    have := ih (w := w ++ [c]) (by simp) ht
    simpa [Ne.symm hc, hw] using this

theorem run_trimmed {t : Text} (h : Trimmed t) (hlt : '<' ∉ t) :
    (⟨outer, done, .words []⟩ : Reader).run t = some ⟨outer, done, .words t⟩ := by
  cases t with
  | nil => rfl
  | cons c t =>
    obtain ⟨hc, ht⟩ := not_or.mp (List.mem_cons.not.mp hlt)
    have hb : isBlank c = false := h.head c rfl
    rw [run, step]
    simpa [Ne.symm hc, hb] using run_words (w := [c]) (by simp) ht

theorem run_inside {s t : Text} (h : ∀ c ∈ t, c ≠ '<' ∧ c ≠ '>') :
    (⟨outer, done, .tag s⟩ : Reader).run t = some ⟨outer, done, .tag (s ++ t)⟩ := by
  induction t generalizing s with
  | nil => rw [List.append_nil]; rfl
  | cons c t ih =>
    obtain ⟨hc, ht⟩ := List.forall_mem_cons.mp h
    rw [run, step]
    simpa [hc.1, hc.2] using ih (s := s ++ [c]) ht

/-- A tag puts an end to words, and does what it says. -/
theorem run_tag {w t : Text} {tag : Tag} (h : ∀ c ∈ t, c ≠ '<' ∧ c ≠ '>')
    (ht : Tag.ofText? t = some tag) :
    (⟨outer, done, .words w⟩ : Reader).run ('<' :: t ++ ['>']) =
      place outer (done ++ wordsOf w) tag := by
  rw [List.cons_append, run, step]
  simp only [if_pos, Option.bind_some]
  rw [run_append, run_inside h, List.nil_append, Option.bind_some, run, step]
  simp only [ht, if_pos, Option.bind_some]
  cases place outer (done ++ wordsOf w) tag <;> rfl

end Reader

/-! ## Markup that is read in full -/

/-- The text adds the nodes, wherever the reader stands between two tags. -/
def Shows (t : Text) (nodes : List Node) : Prop :=
  ∀ outer done, (⟨outer, done, .words []⟩ : Reader).run t =
    some ⟨outer, done ++ nodes, .words []⟩

theorem read_of_shows {t : Text} {nodes : List Node} (h : Shows t nodes) :
    read t = some nodes := by
  rw [read, h]
  simp [Reader.nodes?, wordsOf]

theorem shows_blank {t : Text} (h : AllBlank t) : Shows t [] := fun outer done => by
  rw [Reader.run_blank h, List.append_nil]

theorem Shows.append {s t : Text} {ms ns : List Node} (hs : Shows s ms) (ht : Shows t ns) :
    Shows (s ++ t) (ms ++ ns) := fun outer done => by
  rw [Reader.run_append, hs, Option.bind_some, ht, List.append_assoc]

/-- Blanks around what is read are layout. -/
theorem Shows.between {a b t : Text} {nodes : List Node} (h : Shows t nodes) (ha : AllBlank a)
    (hb : AllBlank b) : Shows (a ++ t ++ b) nodes := by
  simpa using ((shows_blank ha).append h).append (shows_blank hb)

theorem shows_flatMap {α : Type} {f : α → Text} {g : α → List Node} {xs : List α}
    (h : ∀ x ∈ xs, Shows (f x) (g x)) : Shows (xs.flatMap f) (xs.flatMap g) := by
  induction xs with
  | nil => exact shows_blank Text.allBlank_nil
  | cons x xs ih =>
    obtain ⟨hx, hxs⟩ := List.forall_mem_cons.mp h
    exact hx.append (ih hxs)

theorem shows_unlines {α : Type} {f : α → Text} {g : α → Node} {xs : List α}
    (h : ∀ x ∈ xs, Shows (f x) [g x]) : Shows (Text.unlines (xs.map f)) (xs.map g) := by
  induction xs with
  | nil => exact shows_blank Text.allBlank_nil
  | cons x xs ih =>
    obtain ⟨hx, hxs⟩ := List.forall_mem_cons.mp h
    cases xs with
    | nil => simpa [Text.unlines] using hx
    | cons y ys =>
      have hfeed := shows_blank (Text.allBlank_singleton Text.isBlank_newline)
      have hjoin : Text.unlines ((x :: y :: ys).map f) =
          f x ++ (['\n'] ++ Text.unlines ((y :: ys).map f)) := by
        simp [Text.unlines]
      rw [hjoin]
      exact hx.append (hfeed.append (ih hxs))

theorem IsName.not_bracket {t : Text} (h : IsName t) : ∀ c ∈ t, c ≠ '<' ∧ c ≠ '>' :=
  fun c hc => ⟨by rintro rfl; exact h.not_mem (by decide) hc,
    by rintro rfl; exact h.not_mem (by decide) hc⟩

section

variable {name : Text} {attributes : List (Text × Text)} (hname : IsName name)
  (has : ∀ a ∈ attributes, IsName a.1)

include hname has

theorem not_bracket_tagText : ∀ c ∈ tagText name attributes, c ≠ '<' ∧ c ≠ '>' := by
  intro c hc
  rcases List.mem_append.mp hc with hc | hc
  · exact hname.not_bracket c hc
  · obtain ⟨a, ha, hc⟩ := List.mem_flatMap.mp hc
    have hvalue : c ∈ escape a.2 → c ≠ '<' ∧ c ≠ '>' := fun hc =>
      ⟨by rintro rfl; exact not_mem_escape (by decide) _ hc,
        by rintro rfl; exact not_mem_escape (by decide) _ hc⟩
    have hkey := (has a ha).not_bracket c
    simp only [attributeText, List.mem_append, List.mem_cons, List.not_mem_nil, or_false] at hc
    grind

theorem shows_single : Shows (singleTag name attributes) [.element name attributes []] :=
  fun outer done => by
    have hin : ∀ c ∈ tagText name attributes ++ ['/'], c ≠ '<' ∧ c ≠ '>' :=
      List.forall_mem_append.mpr ⟨not_bracket_tagText hname has, by simp⟩
    rw [singleTag, Reader.run_tag hin (Tag.ofText?_single hname has)]
    simp [Reader.place, wordsOf]

theorem run_openingTag (outer : List Frame) (done : List Node) :
    (⟨outer, done, .words []⟩ : Reader).run (openingTag name attributes) =
      some ⟨⟨name, attributes, done⟩ :: outer, [], .words []⟩ := by
  rw [openingTag, Reader.run_tag (not_bracket_tagText hname has) (Tag.ofText?_opening hname has)]
  simp [Reader.place, wordsOf]

omit has in
theorem run_closingTag (outer : List Frame) (before done : List Node) (w : Text) :
    (⟨⟨name, attributes, before⟩ :: outer, done, .words w⟩ : Reader).run (closingTag name) =
      some ⟨outer, before ++ [.element name attributes (done ++ wordsOf w)], .words []⟩ := by
  have hin : ∀ c ∈ '/' :: name, c ≠ '<' ∧ c ≠ '>' :=
    List.forall_mem_cons.mpr ⟨by decide, hname.not_bracket⟩
  rw [closingTag, Reader.run_tag hin (Tag.ofText?_closing hname)]
  simp [Reader.place]

/-- What is read in full may stand in an element. -/
theorem Shows.element {t : Text} {nodes : List Node} (h : Shows t nodes) :
    Shows (openingTag name attributes ++ t ++ closingTag name)
      [.element name attributes nodes] := fun outer done => by
  rw [Reader.run_append, Reader.run_append, run_openingTag hname has, Option.bind_some, h,
    Option.bind_some, run_closingTag hname]
  simp [wordsOf]

/-- Escaped words in an element are read as they were. -/
theorem shows_words {t : Text} (h : Trimmed t) (hne : t ≠ []) :
    Shows (openingTag name attributes ++ escape t ++ closingTag name)
      [.element name attributes [.words t]] := fun outer done => by
  have hwords : wordsOf (escape t) = [.words t] := by
    have hesc := trimmed_escape h
    rw [wordsOf, Text.trimEnd_of_last hesc.last, (inert_escape t).reads, if_neg]
    simpa using escape_ne_nil hne
  rw [Reader.run_append, Reader.run_append, run_openingTag hname has, Option.bind_some,
    Reader.run_trimmed (trimmed_escape h) (not_mem_escape (by decide) t), Option.bind_some,
    run_closingTag hname, hwords]
  rfl

end

end Packaging.Markup
