import Packaging.Proofs.Markup.Blocks
import Packaging.Proofs.Markup.Elements

/-! The markup of a description as a reader of markup finds it. Every block is one closed element
with all its texts in it, so reading the markup gives the blocks, and with them every line of the
description that is not blank, in its place. A blank line cuts the markup as it cuts the lines. -/

namespace Packaging.Markup

open Text (AllBlank Trimmed unlines)

namespace Block

/-- The element that a reader finds for the block. -/
def node : Block → Node
  | .paragraph ls => .element "p".toList [] [.words (List.intercalate [' '] ls)]
  | .bullets ts => .element "ul".toList [] (ts.map fun t => .element "li".toList [] [.words t])

/-- The block has something to show, and in all that it has. -/
structure Full (b : Block) : Prop where
  ne_nil : b.texts ≠ []
  each : ∀ t ∈ b.texts, Trimmed t ∧ t ≠ []

/-! ## One block -/

theorem markup_paragraph (ls : List Text) : (paragraph ls).markup =
    openingTag "p".toList [] ++ escape (List.intercalate [' '] ls) ++ closingTag "p".toList := rfl

def itemLine (t : Text) : Text :=
  [' ', ' ', ' ', ' '] ++ (openingTag "li".toList [] ++ escape t ++ closingTag "li".toList) ++ ['\n']

theorem markup_bullets (ts : List Text) : (bullets ts).markup =
    openingTag "ul".toList [] ++ (['\n'] ++ ts.flatMap itemLine) ++ closingTag "ul".toList := by
  have hitem : (fun t => "    <li>".toList ++ escape t ++ "</li>\n".toList) = itemLine := by
    funext t
    simp [itemLine, openingTag, closingTag, tagText]
  rw [markup, hitem]
  simp [openingTag, closingTag, tagText]

theorem markup_ne_nil (b : Block) : b.markup ≠ [] := by
  cases b <;> simp [markup]

theorem shows_itemLine {t : Text} (h : Trimmed t) (hne : t ≠ []) :
    Shows (itemLine t) [.element "li".toList [] [.words t]] :=
  (shows_words (by decide) (List.forall_mem_nil _) h hne).between Text.allBlank_spaces
    (Text.allBlank_singleton Text.isBlank_newline)

theorem Full.shows_markup {b : Block} (h : b.Full) : Shows b.markup [b.node] := by
  cases b with
  | paragraph ls =>
    obtain ⟨ht, hne⟩ := Text.trimmed_intercalate [' '] h.each h.ne_nil
    rw [markup_paragraph]
    exact shows_words (by decide) (List.forall_mem_nil _) ht hne
  | bullets ts =>
    have hitems := shows_flatMap fun t ht => shows_itemLine (h.each t ht).1 (h.each t ht).2
    rw [← List.map_eq_flatMap] at hitems
    have hfeed := shows_blank (Text.allBlank_singleton Text.isBlank_newline)
    rw [markup_bullets]
    exact (hfeed.append hitems).element (by decide) (List.forall_mem_nil _)

/-! ## The blocks of a description -/

theorem text?_line (b : Block) (t : Text) : (b.line t).text? = some t := by
  cases b <;> rfl

theorem full_of_mem_ofLines {ls : List Text} {b : Block} (h : b ∈ ofLines ls) : b.Full := by
  have hg : Gathered (ls.map Line.ofText) (ofLines ls) := ofLines_eq_iff.mp rfl
  refine ⟨lines_ne_nil_iff.mp (hg.lines_ne_nil b h), fun t ht => ?_⟩
  have hline : b.line t ∈ (ofLines ls).flatMap lines :=
    List.mem_flatMap.mpr ⟨b, h, List.mem_map_of_mem ht⟩
  rw [hg.flatMap_lines] at hline
  obtain ⟨s, -, hs⟩ := List.mem_map.mp (List.mem_filter.mp hline).1
  exact (Line.ofText_eq_iff.mp hs).of_text? (b.text?_line t)

theorem ofLines_append_blank {t : Text} (ht : AllBlank t) (ls ms : List Text) :
    ofLines (ls ++ t :: ms) = ofLines ls ++ ofLines ms := by
  rw [ofLines_eq_iff, List.map_append, List.map_cons, Line.ofText_eq_blank_iff.mpr ht]
  exact (ofLines_eq_iff.mp rfl).append (ofLines_eq_iff.mp rfl)

/-- Neighbours of one kind are the last block before a blank line and the first behind it. -/
theorem exists_blank_between {ls : List Text} {before after : List Block} {a b : Block}
    (h : ofLines ls = before ++ a :: b :: after) (hk : a.isList = b.isList) :
    ∃ front t back, ls = front ++ t :: back ∧ AllBlank t ∧ ofLines front = before ++ [a] ∧
      ofLines back = b :: after := by
  obtain ⟨front, back, hls, hf, hb⟩ := (ofLines_eq_iff.mp rfl).exists_blank h hk
  obtain ⟨front, rest, rfl, rfl, hrest⟩ := List.map_eq_append_iff.mp hls
  obtain ⟨t, back, rfl, ht, rfl⟩ := List.map_eq_cons_iff.mp hrest
  exact ⟨front, t, back, rfl, Line.ofText_eq_blank_iff.mp ht, ofLines_eq_iff.mpr hf,
    ofLines_eq_iff.mpr hb⟩

end Block

/-! ## The whole description -/

theorem read_ofDescription (ls : List Text) :
    read (ofDescription ls) = some ((Block.ofLines ls).map Block.node) :=
  read_of_shows (shows_unlines fun _ hb => (Block.full_of_mem_ofLines hb).shows_markup)

theorem unlines_markup_eq_nil_iff {bs : List Block} :
    unlines (bs.map Block.markup) = [] ↔ bs = [] := by
  cases bs with
  | nil => exact iff_of_true rfl rfl
  | cons b bs =>
    refine iff_of_false ?_ (List.cons_ne_nil b bs)
    cases bs with
    | nil => simpa [unlines] using b.markup_ne_nil
    | cons c cs => simp [unlines]

theorem unlines_markup_append (as bs : List Block) :
    unlines ((as ++ bs).map Block.markup) =
      unlines ([unlines (as.map Block.markup), unlines (bs.map Block.markup)].filter
        (!·.isEmpty)) := by
  have hempty : ∀ cs : List Block, (unlines (cs.map Block.markup)).isEmpty = cs.isEmpty := by
    intro cs
    rw [Bool.eq_iff_iff, List.isEmpty_iff, List.isEmpty_iff]
    exact unlines_markup_eq_nil_iff
  simp only [List.filter_cons, hempty, List.filter_nil]
  cases as with
  | nil => cases bs <;> simp [unlines]
  | cons a as =>
    cases bs with
    | nil => simp [unlines]
    | cons b bs =>
      rw [List.map_append, unlines, Text.intercalate_append (by simp) (by simp)]
      simp [unlines]

/-- The markup of a description is its blocks, each on lines of its own, and is read as them. They
hold every line that is not blank, once and in its place, as an item if it starts with a marker and
among the words of a paragraph if not, and none of them is empty. Only a blank line keeps two lists
or two paragraphs apart, and it cuts the markup where it cuts the lines. -/
theorem ofDescription_shows_lines (ls : List Text) :
    ofDescription ls = unlines ((Block.ofLines ls).map Block.markup) ∧
    read (ofDescription ls) = some ((Block.ofLines ls).map Block.node) ∧
    (∀ b ∈ Block.ofLines ls, b.Full) ∧
    (∀ t l, Line.ofText t = l ↔ Line.Says t l) ∧
    (Block.ofLines ls).flatMap Block.lines = (ls.map Line.ofText).filter (· ≠ .blank) ∧
    (∀ before a b after, Block.ofLines ls = before ++ a :: b :: after → a.isList = b.isList →
      ∃ front t back, ls = front ++ t :: back ∧ AllBlank t ∧
        Block.ofLines front = before ++ [a] ∧ Block.ofLines back = b :: after) ∧
    ∀ t ms, AllBlank t → ofDescription (ls ++ t :: ms) =
      unlines ([ofDescription ls, ofDescription ms].filter (!·.isEmpty)) := by
  refine ⟨rfl, read_ofDescription ls, fun b hb => Block.full_of_mem_ofLines hb,
    fun t l => Line.ofText_eq_iff, (Block.ofLines_eq_iff.mp rfl).flatMap_lines,
    fun before a b after => Block.exists_blank_between, ?_⟩
  intro t ms ht
  rw [ofDescription, Block.ofLines_append_blank ht, unlines_markup_append]
  rfl

/-- Two lists with blank lines between them, and a marker without a blank behind it. -/
def featureLines : List Text :=
  [" One & two", "three", "* a", " - b ", "", "\t", "+ <c>", "*d"].map String.toList

theorem ofDescription_shows_lines_featureLines :
    Block.ofLines featureLines =
      [.paragraph ["One & two".toList, "three".toList]] ++ .bullets [['a'], ['b']] ::
        .bullets ["<c>".toList] :: [.paragraph ["*d".toList]] ∧
    (∃ front t back, featureLines = front ++ t :: back ∧ AllBlank t ∧
      Block.ofLines front =
        [.paragraph ["One & two".toList, "three".toList]] ++ [.bullets [['a'], ['b']]] ∧
      Block.ofLines back = [.bullets ["<c>".toList], .paragraph ["*d".toList]]) ∧
    AllBlank ['\t'] ∧
    ofDescription (featureLines ++ ['\t'] :: ["end".toList]) =
      unlines ([ofDescription featureLines, ofDescription ["end".toList]].filter
        (!·.isEmpty)) := by
  have hblocks : Block.ofLines featureLines =
      [.paragraph ["One & two".toList, "three".toList]] ++ .bullets [['a'], ['b']] ::
        .bullets ["<c>".toList] :: [.paragraph ["*d".toList]] := by decide +kernel
  have htab : AllBlank ['\t'] := Text.allBlank_singleton (by decide)
  obtain ⟨-, -, -, -, -, hapart, hcut⟩ := ofDescription_shows_lines featureLines
  exact ⟨hblocks, hapart _ _ _ _ hblocks rfl, htab, hcut _ _ htab⟩

end Packaging.Markup
