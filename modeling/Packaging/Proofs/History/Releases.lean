import Packaging.Proofs.History.Records
import Packaging.Proofs.Markup.Elements
import Packaging.Template.Build

/-! The releases of a history, each with the changes that follow it, and the markup of them. In a
history that was read nothing stands outside of releases, so its markup is one closed element for
each of them, and a reader of markup finds the releases in it with all that they say. -/

namespace Packaging

open Markup (Node Shows IsName openingTag closingTag singleTag)
open Text (AllBlank Trimmed)

/-- A release with the changes up to the next one. -/
structure Release where
  version : Text
  date : Calendar.Date
  changes : List Text
deriving DecidableEq

namespace Release

def records (r : Release) : List Record := .release r.version r.date :: r.changes.map .change

def attributes (version : Text) (date : Calendar.Date) : List (Text × Text) :=
  [("version".toList, version), ("date".toList, date.text)]

def itemMarkup (t : Text) : Text :=
  openingTag "li".toList [] ++ Markup.escape t ++ closingTag "li".toList

def indent (n : Nat) : Text := List.replicate n ' '

def itemLine (t : Text) : Text := indent 12 ++ itemMarkup t ++ ['\n']

/-- The changes in a list, each on a line of its own. -/
def listMarkup (changes : List Text) : Text :=
  openingTag "ul".toList [] ++ (['\n'] ++ changes.flatMap itemLine ++ indent 8) ++
    closingTag "ul".toList

def descriptionMarkup (changes : List Text) : Text :=
  openingTag "description".toList [] ++
    ('\n' :: indent 8 ++ listMarkup changes ++ '\n' :: indent 4) ++
    closingTag "description".toList

def markup (r : Release) : Text :=
  openingTag "release".toList (attributes r.version r.date) ++
    ('\n' :: indent 4 ++ descriptionMarkup r.changes ++ ['\n']) ++ closingTag "release".toList

def item (t : Text) : Node := .element "li".toList [] [.words t]

def element (r : Release) : Node :=
  .element "release".toList (attributes r.version r.date)
    [.element "description".toList [] [.element "ul".toList [] (r.changes.map item)]]

/-! ## Releases as a reader sees them -/

theorem isName_of_mem_attributes {version : Text} {date : Calendar.Date} :
    ∀ a ∈ attributes version date, IsName a.1 := by
  simp only [attributes, List.forall_mem_cons]
  exact ⟨by decide, by decide, nofun⟩

theorem allBlank_indent (n : Nat) : AllBlank (indent n) := by
  intro c hc
  rw [List.eq_of_mem_replicate hc]
  decide

theorem allBlank_feed (n : Nat) : AllBlank ('\n' :: indent n) :=
  (Text.allBlank_singleton Text.isBlank_newline).append (allBlank_indent n)

theorem shows_itemLine {t : Text} (h : Trimmed t) (hne : t ≠ []) :
    Shows (itemLine t) [item t] := by
  have hitem : Shows (itemMarkup t) [item t] :=
    Markup.shows_words (by decide) (List.forall_mem_nil _) h hne
  exact hitem.between (allBlank_indent 12) (allBlank_feed 0)

theorem shows_listMarkup {changes : List Text} (h : ∀ t ∈ changes, Trimmed t ∧ t ≠ []) :
    Shows (listMarkup changes) [.element "ul".toList [] (changes.map item)] := by
  have hitems := Markup.shows_flatMap fun t ht => shows_itemLine (h t ht).1 (h t ht).2
  rw [← List.map_eq_flatMap] at hitems
  exact (hitems.between (allBlank_feed 0) (allBlank_indent 8)).element (by decide)
    (List.forall_mem_nil _)

theorem shows_descriptionMarkup {changes : List Text} (h : ∀ t ∈ changes, Trimmed t ∧ t ≠ []) :
    Shows (descriptionMarkup changes)
      [.element "description".toList [] [.element "ul".toList [] (changes.map item)]] :=
  ((shows_listMarkup h).between (allBlank_feed 8) (allBlank_feed 4)).element (by decide)
    (List.forall_mem_nil _)

theorem shows_markup {r : Release} (h : ∀ t ∈ r.changes, Trimmed t ∧ t ≠ []) :
    Shows r.markup [r.element] :=
  ((shows_descriptionMarkup h).between (allBlank_feed 4) (allBlank_feed 0)).element (by decide)
    isName_of_mem_attributes

/-- Nothing in a release is called a release again. -/
theorem count_names_element (r : Release) : r.element.names.count "release".toList = 1 := by
  have hitems : ∀ changes : List Text,
      (Markup.namesOf (changes.map item)).count "release".toList = 0 := by
    intro changes
    rw [List.count_eq_zero, Markup.namesOf_eq, List.flatMap_map]
    intro hm
    obtain ⟨t, -, ht⟩ := List.mem_flatMap.mp hm
    revert ht
    simp [item, Node.names, Markup.namesOf]
  rw [element, Node.names, List.count_cons_self]
  simp only [Markup.namesOf, Node.names, List.append_nil]
  rw [List.count_cons_of_ne (by decide), List.count_cons_of_ne (by decide), hitems]

theorem count_namesOf_elements (rs : List Release) :
    (Markup.namesOf (rs.map element)).count "release".toList = rs.length := by
  induction rs with
  | nil => rfl
  | cons r rs ih =>
    rw [List.map_cons, Markup.namesOf, List.count_append, count_names_element, ih,
      List.length_cons, Nat.add_comm]

/-! ## Releases read from their elements -/

def itemWords? : Node → Option Text
  | .element _ _ [.words t] => some t
  | _ => none

/-- The release that an element tells of. Its version and the text that its date is read from are
attributes, and its changes are the items of the list in it. -/
def ofElement? : Node → Option Release
  | .element _ attributes [.element _ _ [.element _ _ items]] => do
    let version ← attributes.lookup "version".toList
    let date ← attributes.lookup "date".toList
    return ⟨version, ← Calendar.Date.ofText? date, ← items.mapM itemWords?⟩
  | _ => none

theorem mapM_itemWords? (changes : List Text) :
    (changes.map item).mapM itemWords? = some changes := by
  induction changes with
  | nil => rfl
  | cons t changes ih =>
    rw [List.map_cons, List.mapM_cons, ih]
    rfl

theorem ofElement?_element (r : Release) : ofElement? r.element = some r := by
  have hversion : (attributes r.version r.date).lookup "version".toList = some r.version := rfl
  have hdate : (attributes r.version r.date).lookup "date".toList = some r.date.text := rfl
  simp only [ofElement?, element, hversion, hdate, bind, Option.bind_some, r.date.ofText?_text,
    mapM_itemWords?]
  rfl

/-! ## Releases of records -/

/-- The changes that come before all releases, and the releases. -/
def ofRecords : List Record → List Text × List Release
  | [] => ([], [])
  | .release version date :: rs => ([], ⟨version, date, (ofRecords rs).1⟩ :: (ofRecords rs).2)
  | .change t :: rs => (t :: (ofRecords rs).1, (ofRecords rs).2)

theorem ofRecords_append (rs : List Record) :
    (ofRecords rs).1.map .change ++ (ofRecords rs).2.flatMap records = rs := by
  induction rs with
  | nil => rfl
  | cons r rs ih =>
    cases r with
    | release version date =>
      rw [ofRecords, List.map_nil, List.nil_append, List.flatMap_cons, records, List.cons_append,
        ih]
    | change t => rw [ofRecords, List.map_cons, List.cons_append, ih]

theorem length_ofRecords (rs : List Record) :
    (ofRecords rs).2.length = rs.countP Record.isRelease := by
  induction rs with
  | nil => rfl
  | cons r rs ih => cases r <;> simp [ofRecords, Record.isRelease, ih, List.countP_cons]

/-! ## Written releases -/

theorem escape_date (d : Calendar.Date) : Markup.escape d.text = d.text := by
  have hall : ∀ e ∈ Markup.entities, e.2.isDigit = false ∧ e.2 ≠ '-' ∧ e.2 ≠ '+' := by decide
  exact Markup.escape_eq_self fun e he => d.not_mem_text (hall e he)

theorem itemLine_eq (t : Text) :
    "            <li>".toList ++ Markup.escape t ++ "</li>\n".toList = itemLine t := by
  have hopen : "            <li>".toList = indent 12 ++ openingTag "li".toList [] := rfl
  have hclose : "</li>\n".toList = closingTag "li".toList ++ ['\n'] := rfl
  rw [hopen, hclose, itemLine, itemMarkup]
  simp only [List.append_assoc]

/-- The start of a release, up to its first change. -/
def startMarkup (version : Text) (date : Calendar.Date) : Text :=
  openingTag "release".toList (attributes version date) ++ '\n' :: indent 4 ++
    openingTag "description".toList [] ++ '\n' :: indent 8 ++ openingTag "ul".toList [] ++ ['\n']

theorem tagText_release (version : Text) (date : Calendar.Date) (t : Text) :
    "<release version=\"".toList ++ Markup.escape version ++ "\" date=\"".toList ++ date.text ++
      '"' :: t = '<' :: Markup.tagText "release".toList (attributes version date) ++ t := by
  have hversion : "<release version=\"".toList =
      '<' :: "release".toList ++ ' ' :: "version".toList ++ ['=', '"'] := rfl
  have hdate : "\" date=\"".toList = '"' :: ' ' :: "date".toList ++ ['=', '"'] := rfl
  rw [hversion, hdate]
  simp only [Markup.tagText, attributes, List.flatMap_cons, List.flatMap_nil,
    Markup.attributeText, escape_date, List.append_assoc, List.cons_append, List.nil_append]

theorem startMarkup_eq (version : Text) (date : Calendar.Date) :
    "<release version=\"".toList ++ Markup.escape version ++ "\" date=\"".toList ++ date.text ++
      "\">\n    <description>\n        <ul>\n".toList = startMarkup version date := by
  have hlist : "\">\n    <description>\n        <ul>\n".toList = '"' :: '>' :: '\n' :: indent 4 ++
      openingTag "description".toList [] ++ '\n' :: indent 8 ++ openingTag "ul".toList [] ++
      ['\n'] := rfl
  have hopen : openingTag "release".toList (attributes version date) =
      '<' :: Markup.tagText "release".toList (attributes version date) ++ ['>'] := rfl
  rw [hlist, startMarkup, hopen]
  simpa only [List.append_assoc, List.cons_append, List.nil_append] using
    tagText_release version date _

/-- A release without a description. -/
theorem singleTag_release (version : Text) (date : Calendar.Date) :
    "<release version=\"".toList ++ Markup.escape version ++ "\" date=\"".toList ++ date.text ++
      "\"/>".toList = singleTag "release".toList (attributes version date) := by
  have hend : "\"/>".toList = ['"', '/', '>'] := rfl
  rw [hend, tagText_release, singleTag]
  simp only [List.append_assoc, List.cons_append, List.nil_append]

theorem releaseEnd_eq : History.releaseEnd = indent 8 ++ closingTag "ul".toList ++
    '\n' :: indent 4 ++ closingTag "description".toList ++ ['\n'] ++
    closingTag "release".toList ++ ['\n'] := rfl

theorem ended_markup (r : Release) : r.markup ++ ['\n'] =
    startMarkup r.version r.date ++ r.changes.flatMap itemLine ++ History.releaseEnd := by
  simp only [markup, descriptionMarkup, listMarkup, startMarkup, releaseEnd_eq, List.append_assoc,
    List.cons_append, List.nil_append]

-- The literals in `markupAfter` are too long for its equations, which would compute them.
theorem markupAfter_release (isOpen : Bool) (version : Text) (date : Calendar.Date)
    (rs : List Record) : History.markupAfter isOpen (.release version date :: rs) =
      (if isOpen then History.releaseEnd else []) ++ startMarkup version date ++
        History.markupAfter true rs := by
  rw [← startMarkup_eq]
  simp only [← List.append_assoc]
  rfl

theorem markupAfter_change (isOpen : Bool) (t : Text) (rs : List Record) :
    History.markupAfter isOpen (.change t :: rs) =
      itemLine t ++ History.markupAfter isOpen rs := by
  rw [← itemLine_eq]
  rfl

/-- Changes before all releases would stand outside of them, or in one that is still open. -/
theorem markupAfter_eq (isOpen : Bool) (rs : List Record) :
    History.markupAfter isOpen rs = (ofRecords rs).1.flatMap itemLine ++
      (if isOpen then History.releaseEnd else []) ++ Text.ended ((ofRecords rs).2.map markup) := by
  induction rs generalizing isOpen with
  | nil => exact (List.append_nil _).symm
  | cons r rs ih =>
    cases r with
    | release version date =>
      have hmarkup := ended_markup ⟨version, date, (ofRecords rs).1⟩
      rw [markupAfter_release, ih, ofRecords, List.map_cons, Text.ended_cons, List.append_cons,
        hmarkup]
      simp only [List.flatMap_nil, List.nil_append, List.append_assoc, if_pos]
    | change t =>
      rw [markupAfter_change, ih, ofRecords, List.flatMap_cons]
      simp only [List.append_assoc]

theorem markup_end (r : Release) :
    r.markup ≠ [] ∧ ∀ c ∈ r.markup.getLast?, Text.isBlank c = false := by
  have hlast : r.markup.getLast? = some '>' := by
    rw [markup, closingTag, ← List.append_assoc, List.getLast?_concat]
  constructor
  · intro h
    rw [h] at hlast
    cases hlast
  · intro c hc
    rw [hlast] at hc
    obtain rfl := Option.some.inj hc
    decide

end Release

namespace History

/-! ## Releases of a history -/

def releases (h : History) : List Release := (Release.ofRecords h.records).2

/-- The history begins with a release, and all of its records are such as reading gives. -/
structure Sound (h : History) : Prop where
  head : ∀ r ∈ h.records.head?, r.isRelease = true
  valid : ∀ r ∈ h.records, r.Valid

theorem sound_ofLines (ls : List Text) : (ofLines ls).Sound :=
  ⟨fun _ => isRelease_of_head_ofLines, fun _ => valid_of_mem_ofLines⟩

section

variable {h : History}

theorem Sound.no_leading (hs : h.Sound) : (Release.ofRecords h.records).1 = [] := by
  cases hr : h.records with
  | nil => rfl
  | cons r rs =>
    have := hs.head r (by rw [hr]; rfl)
    cases r with
    | release version date => rfl
    | change t => cases this

theorem Sound.records_eq (hs : h.Sound) : h.records = h.releases.flatMap Release.records := by
  have := Release.ofRecords_append h.records
  rw [hs.no_leading] at this
  exact this.symm

theorem length_releases (h : History) : h.releases.length = h.releaseCount :=
  Release.length_ofRecords h.records

theorem Sound.markup_eq (hs : h.Sound) :
    h.markup = Text.unlines (h.releases.map Release.markup) := by
  have hend : ∀ t ∈ (h.releases.map Release.markup).getLast?,
      t ≠ [] ∧ ∀ c ∈ t.getLast?, Text.isBlank c = false := by
    intro t ht
    obtain ⟨r, -, rfl⟩ := List.mem_map.mp (List.mem_of_getLast? ht)
    exact r.markup_end
  rw [markup, Release.markupAfter_eq, hs.no_leading]
  exact Text.trimEnd_ended hend

theorem Sound.changes (hs : h.Sound) {r : Release} (hr : r ∈ h.releases) :
    ∀ t ∈ r.changes, Trimmed t ∧ t ≠ [] := by
  intro t ht
  have hmem : Record.change t ∈ h.records := by
    rw [hs.records_eq]
    refine List.mem_flatMap.mpr ⟨r, hr, ?_⟩
    simp [Release.records, ht]
  exact ⟨(hs.valid _ hmem).trimmed, (hs.valid _ hmem).ne_nil⟩

theorem Sound.read_markup (hs : h.Sound) :
    Markup.read h.markup = some (h.releases.map Release.element) := by
  rw [hs.markup_eq]
  exact Markup.read_of_shows (Markup.shows_unlines fun r hr => Release.shows_markup (hs.changes hr))

/-- The elements in the markup tell of the releases and of nothing else. -/
theorem Sound.read_releases (hs : h.Sound) :
    (Markup.read h.markup).map (·.map Release.ofElement?) = some (h.releases.map some) := by
  rw [hs.read_markup, Option.map_some, List.map_map]
  exact congrArg some (List.map_congr_left fun r _ => r.ofElement?_element)

end

/-- A build without releases of its own shows the one that is built. -/
theorem historyMarkup_learn (b : Template.Build) (h : History) :
    (b.learn (.history h)).historyMarkup = if h.records.isEmpty then
      singleTag "release".toList (Release.attributes b.version b.date) else h.markup := by
  rw [← Release.singleTag_release]
  rfl

theorem Sound.read_historyMarkup {h : History} (hs : h.Sound) (b : Template.Build) :
    ∃ nodes, Markup.read (b.learn (.history h)).historyMarkup = some nodes ∧
      (Markup.namesOf nodes).count "release".toList = max 1 h.releaseCount := by
  rw [historyMarkup_learn]
  by_cases he : h.records = []
  · have hcount : h.releaseCount = 0 := by rw [releaseCount, he]; rfl
    rw [if_pos (by simpa using he), hcount]
    exact ⟨_, Markup.read_of_shows
      (Markup.shows_single (by decide) Release.isName_of_mem_attributes), rfl⟩
  · have hpos : 1 ≤ h.releaseCount := by
      obtain ⟨r, rs, hr⟩ := List.exists_cons_of_ne_nil he
      have hrel := hs.head r (by rw [hr]; rfl)
      exact List.countP_pos_iff.mpr ⟨r, by simp [hr], hrel⟩
    rw [if_neg (by simpa using he), Nat.max_eq_right hpos]
    exact ⟨_, hs.read_markup, by rw [Release.count_namesOf_elements, length_releases]⟩

/-- Whatever lines are read, the history begins with a release and holds valid records only. Its
markup is that of its releases, joined by line feeds, and a reader finds in it one element for each
of them, from which the version, the date and the changes are read as they were. A build that is
given the history shows as many releases, but at least one. -/
theorem markup_shows_releases (ls : List Text) :
    (∀ r ∈ (ofLines ls).records.head?, r.isRelease = true) ∧
    (∀ r ∈ (ofLines ls).records, r.Valid) ∧
    (ofLines ls).records = (ofLines ls).releases.flatMap Release.records ∧
    (ofLines ls).releases.length = (ofLines ls).releaseCount ∧
    (ofLines ls).markup = Text.unlines ((ofLines ls).releases.map Release.markup) ∧
    Markup.read (ofLines ls).markup = some ((ofLines ls).releases.map Release.element) ∧
    (Markup.read (ofLines ls).markup).map (·.map Release.ofElement?) =
      some ((ofLines ls).releases.map some) ∧
    ∀ (d : Descriptor) (b : Template.Build), ∃ nodes,
      Markup.read (Template.Values.ofBuild d (b.learn (.history (ofLines ls))) .historyMarkup) =
        some nodes ∧
      (Markup.namesOf nodes).count "release".toList = max 1 (ofLines ls).releaseCount := by
  have hs := sound_ofLines ls
  exact ⟨hs.head, hs.valid, hs.records_eq, length_releases _, hs.markup_eq, hs.read_markup,
    hs.read_releases, fun _ b => hs.read_historyMarkup b⟩

/-- Versions and changes that look like markup. -/
def hostileLines : List Text :=
  ["+ \"/><br>;2024-02-29", "- </li>&amp;", "<ul>", "+2; 1 Jan 2025"].map String.toList

theorem markup_shows_releases_hostileLines :
    Markup.read (ofLines hostileLines).markup =
      some [Release.element ⟨"\"/><br>".toList, ⟨2024, 2, 29, rfl⟩, ["</li>&amp; <ul>".toList]⟩,
        Release.element ⟨"2".toList, ⟨2025, 1, 1, rfl⟩, []⟩] := by
  have hreleases : (ofLines hostileLines).releases =
      [⟨"\"/><br>".toList, ⟨2024, 2, 29, rfl⟩, ["</li>&amp; <ul>".toList]⟩,
        ⟨"2".toList, ⟨2025, 1, 1, rfl⟩, []⟩] := by
    decide +kernel
  obtain ⟨-, -, -, -, -, hread, -⟩ := markup_shows_releases hostileLines
  rw [hread, hreleases]
  rfl

end History

end Packaging
