import Packaging.Proofs.Document.Run
import Packaging.Proofs.Text.Lines

/-! Documents read again from their own text. A carriage return that stood in front of a line feed
is gone from the text, and a second one in front of it would go the next time; but for those the
text has the same lines, less an empty one at its end, which holds no entry and ends no block. So
the same entries are found on the same lines, however often the text is read again. -/

namespace Packaging.Document

open Text (OwnLine)

/-! ## Lines put together and cut again -/

/-- In front of line feeds the lines stay what they are, and the last one holds none. -/
structure Rejoins (ls : List Text) : Prop where
  own : ∀ l ∈ ls.dropLast, OwnLine l
  last : ∀ l ∈ ls.getLast?, '\n' ∉ l

theorem rejoins_lines {t : Text} (h : ¬['\r', '\r', '\n'] <:+: t) : Rejoins (Text.lines t) :=
  ⟨Text.ownLine_of_mem_lines h, fun _ hl => Text.feedless_of_mem_lines (List.mem_of_getLast? hl)⟩

/-- The lines come back, but for an empty one at the end. -/
theorem Rejoins.lines_cases {ls : List Text} (h : Rejoins ls) :
    (ls.getLast? ≠ some [] ∧ Text.lines (Text.unlines ls) = ls) ∨
      ∃ ms, ls = ms ++ [[]] ∧ Text.lines (Text.unlines ls) = ms ∧ Rejoins ms := by
  rcases List.eq_nil_or_concat ls with rfl | ⟨init, l, rfl⟩
  · exact .inl ⟨nofun, rfl⟩
  · rw [List.concat_eq_append] at h ⊢
    have hown := h.own
    rw [List.dropLast_concat] at hown
    have hlines := Text.lines_unlines_concat hown (h.last l List.getLast?_concat)
    by_cases hl : l = []
    · rw [if_pos hl] at hlines
      refine .inr ⟨init, by rw [hl], hlines, fun m hm => hown m (List.dropLast_subset _ hm), ?_⟩
      exact fun m hm => (hown m (List.mem_of_getLast? hm)).feedless
    · rw [if_neg hl] at hlines
      exact .inl ⟨by simpa using hl, hlines⟩

/-! ## Reading again -/

/-- The document is what its lines are read as. -/
def IsRead (doc : Document) : Prop := ofLines doc.name doc.lines = .ok doc

theorem isRead_of_ofText {name t : Text} {doc : Document} (h : ofText name t = .ok doc) :
    doc.IsRead ∧ doc.name = name ∧ doc.lines = Text.lines t := by
  obtain ⟨-, -, rfl⟩ := ofLines_eq_ok_iff.mp h
  exact ⟨h, rfl, rfl⟩

theorem IsRead.without_last {doc : Document} (h : doc.IsRead) {ls : List Text}
    (hls : doc.lines = ls ++ [[]]) : IsRead { doc with lines := ls } := by
  rw [IsRead, hls, ofLines_eq_ok_iff, Run.scan_concat_empty] at h
  obtain ⟨hkeys, hfault, he⟩ := h
  refine ofLines_eq_ok_iff.mpr ⟨hkeys, hfault, ?_⟩
  rw [he]

/-- From its own text a document is read with the same entries, and with the same lines but for an
empty one at the end. -/
theorem IsRead.exists_again {doc : Document} (h : doc.IsRead) (hr : Rejoins doc.lines) :
    ∃ ls, ofText doc.name doc.verbatim = .ok { doc with lines := ls } ∧
      (doc.lines.getLast? ≠ some [] ∧ ls = doc.lines ∨ doc.lines = ls ++ [[]]) ∧
      IsRead { doc with lines := ls } ∧ Rejoins ls := by
  rcases hr.lines_cases with ⟨hne, hlines⟩ | ⟨ms, hms, hlines, hrms⟩
  · refine ⟨doc.lines, ?_, .inl ⟨hne, rfl⟩, h, hr⟩
    rw [ofText, verbatim, hlines]
    exact h
  · have hread := h.without_last hms
    refine ⟨ms, ?_, .inr hms, hread, hrms⟩
    rw [ofText, verbatim, hlines]
    exact hread

/-- The document that comes of reading its own text so many times, each time from the text of the
document before. -/
def reread : Nat → Document → Except LineError Document
  | 0, doc => .ok doc
  | k + 1, doc => do reread k (← ofText doc.name doc.verbatim)

theorem IsRead.exists_reread {doc : Document} (h : doc.IsRead) (hr : Rejoins doc.lines) (k : Nat) :
    ∃ ls j, reread k doc = .ok { doc with lines := ls } ∧ j ≤ k ∧
      doc.lines = ls ++ List.replicate j [] := by
  induction k generalizing doc with
  | zero => exact ⟨doc.lines, 0, rfl, Nat.le_refl 0, (List.append_nil _).symm⟩
  | succ k ih =>
    obtain ⟨ls, hls, hlast, hread, hrls⟩ := h.exists_again hr
    obtain ⟨ms, j, hms, hj, he⟩ := ih hread hrls
    have hreread : reread (k + 1) doc = .ok { doc with lines := ms } := by
      rw [reread, hls]
      exact hms
    rcases hlast with ⟨-, rfl⟩ | hlast
    · exact ⟨ms, j, hreread, Nat.le_succ_of_le hj, he⟩
    · have hls : ls = ms ++ List.replicate j [] := he
      refine ⟨ms, j + 1, hreread, Nat.succ_le_succ hj, ?_⟩
      rw [hlast, hls, List.append_assoc, List.replicate_succ']

/-- A document whose text has no two carriage returns in front of a line feed is read again from its
own text, with the same entries on the same lines; at most an empty line at the end is dropped. And
so it is read from the text of that one, and however often this is done. -/
theorem verbatim_reads_alike {name t : Text} {doc : Document} (h : ofText name t = .ok doc)
    (hr : ¬['\r', '\r', '\n'] <:+: t) :
    (∃ again, ofText name doc.verbatim = .ok again ∧ again.entries = doc.entries ∧
      (doc.lines.getLast? ≠ some [] ∧ again.lines = doc.lines ∨
        doc.lines = again.lines ++ [[]])) ∧
    ∀ k, ∃ again, reread k doc = .ok again ∧ again.entries = doc.entries ∧
      ∃ j ≤ k, doc.lines = again.lines ++ List.replicate j [] := by
  obtain ⟨hread, rfl, hlines⟩ := isRead_of_ofText h
  have hrejoins : Rejoins doc.lines := hlines ▸ rejoins_lines hr
  constructor
  · obtain ⟨ls, hls, hlast, -⟩ := hread.exists_again hrejoins
    exact ⟨_, hls, rfl, hlast⟩
  · intro k
    obtain ⟨ls, j, hls, hj, he⟩ := hread.exists_reread hrejoins k
    exact ⟨_, hls, rfl, j, hj, he⟩

def returnsText : Text := "# s\r\nKey = \"\"\"\ra\r\n\r\"\"\"\r\n\n\n".toList

def returnsDocument : Document where
  name := "s".toList
  lines := ["# s".toList, "Key = \"\"\"\ra".toList, "\r\"\"\"".toList, [], []]
  entries := [⟨"Key".toList, "a".toList, 2⟩]

theorem verbatim_reads_alike_returnsText :
    ofText "s".toList returnsText = .ok returnsDocument ∧
    ¬['\r', '\r', '\n'] <:+: returnsText ∧
    (∃ again, ofText "s".toList returnsDocument.verbatim = .ok again ∧
      again.entries = returnsDocument.entries) ∧
    ∃ again, reread 3 returnsDocument = .ok again ∧ again.entries = returnsDocument.entries := by
  have hread : ofText "s".toList returnsText = .ok returnsDocument := by decide +kernel
  have hreturns : ¬['\r', '\r', '\n'] <:+: returnsText := Text.before?_eq_none_iff.mp (by decide)
  obtain ⟨⟨again, hagain, he, -⟩, hmore⟩ := verbatim_reads_alike hread hreturns
  obtain ⟨later, hlater, hl, -⟩ := hmore 3
  exact ⟨hread, hreturns, ⟨again, hagain, he⟩, later, hlater, hl⟩

/-- A second carriage return in a block goes with the line feed when the text is read again. -/
example : (ofText [] "Key = \"\"\"a\r\r\nb\"\"\"".toList >>= reread 1).toOption.map (·.entries) =
    some [⟨"Key".toList, "a\nb".toList, 1⟩] := by
  decide +kernel

end Packaging.Document
