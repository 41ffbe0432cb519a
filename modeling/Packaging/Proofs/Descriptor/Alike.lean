import Packaging.Proofs.Descriptor.Parts

/-! Both layouts of a descriptor are read alike, whatever its free text holds. They can differ only
behind a block that the summary or the description opens and leaves open. The summary then takes in
a line and has too many of them; a block of the description ends where a list begins, and the end of
that list is a fault. A description that is written as a block ends on its own lines, which both
layouts share, or breaks the reading there. -/

namespace Packaging

open Document (Item Run pairs)
open Text (OwnLine AllBlank)

/-! ## Readings -/

namespace Descriptor

theorem ofText_eq_ok_iff {name t : Text} {base : Path} {check : PathCheck} {d : Descriptor} :
    ofText name t base check = .ok d ↔
      ∃ doc, Document.ofText name t = .ok doc ∧ ofDocument doc base check = .ok d := by
  unfold ofText
  cases Document.ofText name t <;> simp

theorem ofText_of_error {name t : Text} {base : Path} {check : PathCheck}
    (h : ∃ e, Document.ofText name t = .error e) : ∃ f, ofText name t base check = .error f := by
  obtain ⟨e, he⟩ := h
  exact ⟨.line name e, by rw [ofText, he]⟩

/-- A descriptor is read from nothing but keys and values. -/
theorem ofDocument_congr {doc doc' : Document} (h : pairs doc.entries = pairs doc'.entries)
    (base : Path) (check : PathCheck) :
    ofDocument doc base check = ofDocument doc' base check := by
  have hget : ∀ key, doc.get? key = doc'.get? key := fun key => by
    rw [Document.get?_eq, Document.get?_eq, h]
  have hunknown : unknownKeys doc = unknownKeys doc' := by
    have hkeys : ∀ es : List Entry, es.map (·.key) = (pairs es).map Prod.fst := fun es => by
      simp [pairs]
    rw [unknownKeys, unknownKeys, hkeys, hkeys, h]
  simp only [ofDocument, Setting.read_congr hget, hunknown]

/-- A summary of several lines is refused. -/
theorem ofText_of_torn {name t : Text} {base : Path} {check : PathCheck} {r : Run}
    (hscan : Document.scan 1 (Text.lines t) = (r.entries, r.fault?))
    (hr : r.Torn Setting.appShortSummary.key) : ∃ f, ofText name t base check = .error f := by
  cases hok : ofText name t base check with
  | error f => exact ⟨f, rfl⟩
  | ok d =>
    obtain ⟨doc, hdoc, hd⟩ := ofText_eq_ok_iff.mp hok
    obtain ⟨hnodup, hplace, rfl⟩ := (Document.ofLines_eq_ok_iff_of_scan hscan).mp hdoc
    cases hr with
    | @found e he hkey hbreak =>
      have hset : Document.setting? ⟨name, Text.lines t, r.entries⟩ e.key =
          some (Text.trim e.value) :=
        Document.setting?_of_mem hnodup he (List.ne_nil_of_mem hbreak)
      have hread := (ofDocument_eq_ok_iff.mp hd).2.2 .appShortSummary
      rw [Setting.read, ← hkey, hset] at hread
      change Kind.readLine .free (Text.trim e.value) = _ at hread
      exact absurd hbreak (Kind.readLine_eq_ok_iff.mp hread).2.1
    | inside hp => cases hplace.symm.trans hp
    | stopped hp => cases hplace.symm.trans hp

end Descriptor

/-! ## Runs over the parts -/

namespace Descriptor

open Layout

/-- The texts keep to their lines, and only free text holds double quotes. -/
structure TextsKept (d : Descriptor) : Prop where
  ownLine (s : Setting) : ∀ t ∈ (d.written s).texts, OwnLine t
  quoteless (s : Setting) : ¬s.kind.IsFree → ∀ t ∈ (d.written s).texts, '"' ∉ t

theorem textsKept_of_ofDocument {doc : Document} {base : Path} {check : PathCheck}
    {d : Descriptor} (h : ofDocument doc base check = .ok d) (hb : Hazardless d.base.text) :
    d.TextsKept := by
  have htexts : ∀ s, ∀ t ∈ (d.written s).texts, OwnLine t ∧ (¬s.kind.IsFree → '"' ∉ t) := fun s =>
    Kind.texts_written hb (valid_of_ofDocument h s) s.default_valid
  exact ⟨fun s t ht => (htexts s t ht).1, fun s hs t ht => (htexts s t ht).2 hs⟩

/-- The line of the summary. -/
def summaryLine (d : Descriptor) : Text :=
  Written.assignment Setting.appShortSummary.key (Written.quoted (d.value .appShortSummary))

/-- The lines behind the summary. -/
def linesBehind (d : Descriptor) (layout : Layout) : List Text :=
  layout.betweenItems.flatMap Item.lines ++ ((d.entryItem .appDescription).lines ++
    (backItems layout d.entryItem).flatMap Item.lines)

theorem documentLines_eq (d : Descriptor) (layout : Layout) :
    (documentItems layout d.entryItem).flatMap Item.lines =
      (frontItems layout d.entryItem).flatMap Item.lines ++
        d.summaryLine :: d.linesBehind layout := by
  rw [documentItems_parts]
  simp only [List.flatMap_append, List.flatMap_cons, linesBehind]
  rfl

/-- Behind the summary the first line that is not empty starts with no blank and no quote. -/
theorem exists_start (d : Descriptor) (layout : Layout) :
    ∃ c t rest, Text.isBlank c = false ∧ c ≠ '"' ∧
      (d.linesBehind layout = (c :: t) :: rest ∨
        d.linesBehind layout = [] :: (c :: t) :: rest) := by
  cases layout with
  | verbose => exact ⟨'#', _, _, by decide, by decide, .inr rfl⟩
  | minimal =>
    have hkey := Setting.isKey .appDescription
    obtain ⟨c, key, hc⟩ := List.exists_cons_of_ne_nil hkey.ne_nil
    have halpha : c.isAlpha = true := hkey.letters c (by simp [hc])
    obtain ⟨t, rest, hlines⟩ : ∃ t rest, (d.entryItem .appDescription).lines =
        Written.assignment Setting.appDescription.key t :: rest := by
      unfold entryItem Written.item
      cases (d.written .appDescription).laid with
      | line t => exact ⟨_, _, rfl⟩
      | list ts => exact ⟨_, _, rfl⟩
    have hquote : c ≠ '"' := by
      rintro rfl
      cases halpha
    have hl : d.linesBehind .minimal = (c :: (key ++ ' ' :: '=' :: ' ' :: t)) ::
        (rest ++ (backItems .minimal d.entryItem).flatMap Item.lines) := by
      rw [linesBehind, hlines, Written.assignment, hc]
      rfl
    exact ⟨c, _, _, isBlank_of_isAlpha halpha, hquote, .inl hl⟩

theorem assigns_summaryLine {d : Descriptor}
    (ht : Text.Trimmed (d.value .appShortSummary : Text)) :
    Document.Assigns d.summaryLine Setting.appShortSummary.key
      (Written.quoted (d.value .appShortSummary)) := by
  have h := Written.assigns_assignment (Setting.isKey .appShortSummary)
    (Written.quoted (d.value .appShortSummary))
  rwa [(Written.trimmed_quoted ht).trim_eq] at h

/-- The run over all lines of a written document. -/
def documentRun (d : Descriptor) (layout : Layout) : Run :=
  (Run.start 1).through ((documentItems layout d.entryItem).flatMap Item.lines)

namespace TextsKept

variable {d : Descriptor} (h : d.TextsKept)
include h

theorem valid_entry {s : Setting} (hs : ¬s.kind.IsFree) : (d.entryItem s).Valid :=
  Written.valid_item s.isKey (Written.clean_of_quoteless (h.ownLine s) (h.quoteless s hs))

theorem valid_front (layout : Layout) : ∀ i ∈ frontItems layout d.entryItem, i.Valid := by
  intro i hi
  rcases silent_or_entry_of_front hi with hs | ⟨s, hs, rfl⟩
  · exact hs.valid
  · exact h.valid_entry (not_isFree_of_front hs)

theorem valid_back (layout : Layout) : ∀ i ∈ backItems layout d.entryItem, i.Valid := by
  intro i hi
  rcases silent_or_entry_of_back hi with hs | ⟨s, hs, rfl⟩
  · exact hs.valid
  · exact h.valid_entry (not_isFree_of_rest hs)

/-- A block that is open behind the description stays open or breaks the reading. -/
theorem back_ne_outside (layout : Layout) {r : Run} (hr : r.place ≠ .outside) :
    (r.through ((backItems layout d.entryItem).flatMap Item.lines)).place ≠ .outside := by
  refine Run.through_items_ne_outside (fun i hi r hr => ?_) hr
  rcases silent_or_entry_of_back hi with hs | ⟨s, hs, rfl⟩
  · exact Run.through_lines_ne_outside hr hs.2
  · exact Written.through_item_ne_outside s.isKey (h.quoteless s (not_isFree_of_rest hs)) hr

/-- In front of the summary the layouts have read the same. -/
theorem exists_front (layout : Layout) :
    ∃ n es, (Run.start 1).through ((frontItems layout d.entryItem).flatMap Item.lines) =
        ⟨n, es, .outside⟩ ∧
      pairs es = frontSettings.filterMap fun s => pair? (d.entryItem s) := by
  refine ⟨_, _, Run.through_items (h.valid_front layout) 1 [], ?_⟩
  rw [List.nil_append, pairs_entriesFrom, filterMap_front]

/-- A summary that opens a block runs over several lines. -/
theorem torn_of_opening {first : Text} (ht : Text.Trimmed (d.value .appShortSummary : Text))
    (hf : Written.quoted (d.value .appShortSummary) = Document.blockMark ++ first)
    (hm : ¬Document.blockMark <:+: first) (layout : Layout) :
    (d.documentRun layout).Torn Setting.appShortSummary.key := by
  obtain ⟨n, es, hfront, -⟩ := h.exists_front layout
  have ha := assigns_summaryLine ht
  have hblank := Written.first_of_quoted ht hf
  rw [hf] at ha
  obtain ⟨c, t, rest, hc, hq, hl | hl⟩ := d.exists_start layout
  · rw [documentRun, documentLines_eq, Run.through_append, hfront, Run.through_cons,
      Run.step_opening ha hm, hl, Run.through_cons]
    exact (Run.torn_step hblank hc hq t).through rest
  · rw [documentRun, documentLines_eq, Run.through_append, hfront, Run.through_cons,
      Run.step_opening ha hm, hl, Run.through_cons, Run.through_cons, Run.step_body (by decide)]
    exact (Run.torn_step hblank hc hq t).through rest

/-- A summary on one line leaves both layouts where they stand alike, or where nothing more is
read. -/
theorem alike_or_astray {w : Text} (ht : Text.Trimmed (d.value .appShortSummary : Text))
    (hw : Document.OneLine (Written.quoted (d.value .appShortSummary)) w) :
    (d.documentRun .verbose).Alike (d.documentRun .minimal) ∨
      ∀ layout, (d.documentRun layout).place ≠ .outside := by
  have hstart : ∀ layout, ∃ n es, d.documentRun layout =
        ((⟨n, es, .outside⟩ : Run).through (d.entryItem .appDescription).lines).through
          ((backItems layout d.entryItem).flatMap Item.lines) ∧
      pairs es = (frontSettings.filterMap fun s => pair? (d.entryItem s)) ++
        [(Setting.appShortSummary.key, w)] := by
    intro layout
    obtain ⟨n, es, hfront, hp⟩ := h.exists_front layout
    refine ⟨n + 1 + Document.lineCount layout.betweenItems,
      es ++ [⟨Setting.appShortSummary.key, w, n⟩] ++
        Document.entriesFrom (n + 1) layout.betweenItems, ?_, ?_⟩
    · rw [documentRun, documentLines_eq, Run.through_append, hfront, Run.through_cons,
        Run.step_entry (assigns_summaryLine ht) hw, linesBehind, Run.through_append,
        Run.through_items fun i hi => (silent_between hi).valid, Run.through_append]
    · have hbetween := filterMap_silent fun i => @silent_between layout i
      simp [hp, pairs_entriesFrom, hbetween]
  obtain ⟨n, es, hverbose, hp⟩ := hstart .verbose
  obtain ⟨m, fs, hminimal, hp'⟩ := hstart .minimal
  have hstand : (⟨n, es, .outside⟩ : Run).Alike ⟨m, fs, .outside⟩ := ⟨hp.trans hp'.symm, .outside⟩
  have halike := hstand.through (d.entryItem .appDescription).lines
  generalize (⟨n, es, .outside⟩ : Run).through (d.entryItem .appDescription).lines = r at *
  generalize (⟨m, fs, .outside⟩ : Run).through (d.entryItem .appDescription).lines = s at *
  by_cases ho : r.place = .outside
  · left
    obtain ⟨n, es, p⟩ := r
    obtain ⟨m, fs, q⟩ := s
    obtain rfl : p = .outside := ho
    obtain rfl : q = .outside := halike.place.outside_iff.mp rfl
    rw [hverbose, hminimal, Run.through_items (h.valid_back .verbose),
      Run.through_items (h.valid_back .minimal)]
    refine ⟨?_, .outside⟩
    have hpairs : pairs es = pairs fs := halike.pairs
    simp [hpairs, pairs_entriesFrom, filterMap_back]
  · right
    intro layout
    cases layout with
    | verbose =>
      rw [hverbose]
      exact h.back_ne_outside .verbose ho
    | minimal =>
      rw [hminimal]
      exact h.back_ne_outside .minimal (mt halike.place.outside_iff.mpr ho)

end TextsKept

/-! ## Both layouts -/

/-- From a base with a safe text, the two layouts of a descriptor that was read are both refused or
both read as the same descriptor, unknown keys included, whatever stands in its summary and in its
description. -/
theorem layouts_read_alike {doc : Document} {base : Path} {check : PathCheck} {d : Descriptor}
    (h : ofDocument doc base check = .ok d) (hsafe : CharClass.fault? .safe d.base.text = none)
    (name : Text) :
    (∃ e, ofText name (d.write .verbose) d.base .off = .ok e ∧
      ofText name (d.write .minimal) d.base .off = .ok e) ∨
    (∃ f, ofText name (d.write .verbose) d.base .off = .error f) ∧
      ∃ f, ofText name (d.write .minimal) d.base .off = .error f := by
  have hkept := textsKept_of_ofDocument h (CharClass.fault?_safe_eq_none_iff.mp hsafe)
  have hscan : ∀ layout, Document.scan 1 (Text.lines (d.write layout)) =
      ((d.documentRun layout).entries, (d.documentRun layout).fault?) := fun layout =>
    scan_write hkept.ownLine layout rfl
  have ht : Text.Trimmed (d.value .appShortSummary : Text) :=
    (valid_of_ofDocument h .appShortSummary : IsLine .free _).trimmed
  rcases Document.LineKind.ofValue_cases [] (Written.quoted (d.value .appShortSummary)) with
    ⟨w, hw, -⟩ | ⟨first, hf, hm, -⟩
  · rcases hkept.alike_or_astray ht hw with halike | hastray
    · rcases Document.ofLines_of_alike name (hscan .verbose) (hscan .minimal) halike with
        ⟨doc', doc'', hd', hd'', hp⟩ | ⟨he, he'⟩
      · have hverbose :
            ofText name (d.write .verbose) d.base .off = ofDocument doc' d.base .off := by
          rw [ofText, Document.ofText, hd']
        have hminimal :
            ofText name (d.write .minimal) d.base .off = ofDocument doc' d.base .off := by
          rw [ofText, Document.ofText, hd'', ofDocument_congr hp]
        rw [hverbose, hminimal]
        cases ofDocument doc' d.base .off with
        | ok e => exact .inl ⟨e, rfl, rfl⟩
        | error f => exact .inr ⟨⟨f, rfl⟩, f, rfl⟩
      · exact .inr ⟨ofText_of_error he, ofText_of_error he'⟩
    · have herror : ∀ layout, ∃ f, ofText name (d.write layout) d.base .off = .error f :=
        fun layout => ofText_of_error ((Document.ofLines_eq_error_iff_of_scan (hscan layout)).mpr
          fun ho => hastray layout ho.2)
      exact .inr ⟨herror .verbose, herror .minimal⟩
  · have herror : ∀ layout, ∃ f, ofText name (d.write layout) d.base .off = .error f := by
      intro layout
      exact ofText_of_torn (hscan layout) (hkept.torn_of_opening ht hf hm layout)
    exact .inr ⟨herror .verbose, herror .minimal⟩

/-- A summary that is over before its end, and a description that ends its own block and opens one
for a key that no setting has. -/
def quotedValues : List (Setting × Text) :=
  [(.appBaseName, "App".toList), (.appFriendlyName, "App".toList), (.appId, "org.app".toList),
   (.appVersionRelease, "1.0".toList), (.appShortSummary, "\"\"\"An app\"\"\" for you".toList),
   (.appDescription, "First\n\"\"\"\nExtra = \"\"\"\nlast".toList),
   (.appLicenseId, "MIT".toList), (.publisherName, "Me".toList)]

theorem layouts_read_alike_quotedValues :
    ∃ d e, ofDocument (Document.ofValues quotedValues) ⟨"/base".toList⟩ .off = .ok d ∧
      ofText [] (d.write .verbose) d.base .off = .ok e ∧
      ofText [] (d.write .minimal) d.base .off = .ok e ∧ e.unknown = ["Extra".toList] := by
  obtain ⟨d, hd⟩ : ∃ d, ofDocument (Document.ofValues quotedValues) ⟨"/base".toList⟩ .off = .ok d :=
    exists_ofValues (by decide +kernel)
  have hsafe : CharClass.fault? .safe d.base.text = none := by
    rw [(ofDocument_eq_ok_iff.mp hd).1]
    decide +kernel
  have hunknown : ((ofDocument (Document.ofValues quotedValues) ⟨"/base".toList⟩ .off).bind
      fun d => (ofText [] (d.write .minimal) d.base .off).map (·.unknown)).toOption =
        some ["Extra".toList] := by decide +kernel
  rw [hd] at hunknown
  rcases layouts_read_alike hd hsafe [] with ⟨e, hverbose, hminimal⟩ | ⟨-, f, hf⟩
  · simp only [Except.bind, hminimal] at hunknown
    exact ⟨d, e, hd, hverbose, hminimal, Option.some.inj hunknown⟩
  · simp only [Except.bind, hf] at hunknown
    cases hunknown

end Descriptor

end Packaging
