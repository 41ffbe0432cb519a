import Mathlib.Data.List.Nodup
import Packaging.Proofs.Document.Run

/-! Documents that hold the same keys with the same values, on whatever lines. Two runs that stand
alike stand alike behind every further line, and all that is read from a document is read from its
keys and values; so lines that make no difference to where a run stands make none at all. -/

namespace Packaging.Document

/-! ## Keys and values -/

/-- The keys and values of entries. -/
def pairs (es : List Entry) : List (Text × Text) := es.map fun e => (e.key, e.value)

@[simp] theorem pairs_append (es fs : List Entry) : pairs (es ++ fs) = pairs es ++ pairs fs :=
  List.map_append

@[simp] theorem pairs_nil : pairs [] = [] := rfl

@[simp] theorem pairs_cons (e : Entry) (es : List Entry) :
    pairs (e :: es) = (e.key, e.value) :: pairs es := rfl

theorem map_folded_eq (es : List Entry) :
    es.map Entry.folded = (pairs es).map fun p => Text.lower p.1 := by
  simp [pairs, Entry.folded]

theorem get?_eq (doc : Document) (key : Text) :
    doc.get? key =
      ((pairs doc.entries).find? fun p => Text.lower p.1 == Text.lower key).map Prod.snd := by
  simp only [get?, entry?, pairs, List.find?_map, Option.map_map]
  rfl

/-- Among different keys an entry answers to its own. -/
theorem entry?_of_mem {doc : Document} (hd : (doc.entries.map Entry.folded).Nodup) {e : Entry}
    (he : e ∈ doc.entries) : doc.entry? e.key = some e := by
  unfold entry?
  cases hf : doc.entries.find? (·.folded == Text.lower e.key) with
  | none => exact absurd (List.find?_eq_none.mp hf e he) (by simp [Entry.folded])
  | some f =>
    have hkey : f.folded = e.folded := by simpa [Entry.folded] using List.find?_some hf
    rw [List.inj_on_of_nodup_map hd (List.mem_of_find?_eq_some hf) he hkey]

theorem setting?_of_mem {doc : Document} (hd : (doc.entries.map Entry.folded).Nodup) {e : Entry}
    (he : e ∈ doc.entries) (hv : Text.trim e.value ≠ []) :
    doc.setting? e.key = some (Text.trim e.value) := by
  simp [setting?, get?, entry?_of_mem hd he, hv]

/-! ## Runs that stand alike -/

inductive Place.Alike : Place → Place → Prop
  | outside : Alike .outside .outside
  | inside {key : Text} {j k : Nat} {texts : List Text} :
      Alike (.inside key j texts) (.inside key k texts)
  | stopped {e f : LineError} : Alike (.stopped e) (.stopped f)

theorem Place.Alike.outside_iff {p q : Place} (h : p.Alike q) :
    p = .outside ↔ q = .outside := by
  cases h <;> simp

namespace Run

/-- The runs differ in nothing but the numbers of their lines, and what fault ended them. -/
structure Alike (r s : Run) : Prop where
  pairs : pairs r.entries = pairs s.entries
  place : r.place.Alike s.place

theorem Alike.step {r s : Run} (h : Alike r s) (l : Text) : Alike (r.step l) (s.step l) := by
  obtain ⟨n, es, p⟩ := r
  obtain ⟨m, fs, q⟩ := s
  obtain ⟨hp, hq⟩ := h
  simp only at hp hq
  cases hq with
  | outside =>
    simp only [Run.step]
    cases LineKind.ofLine l with
    | skipped => exact ⟨hp, .outside⟩
    | faulty fault => exact ⟨hp, .stopped⟩
    | entry key value => exact ⟨by simp [hp], .outside⟩
    | opening key first => exact ⟨hp, .inside⟩
  | inside =>
    simp only [Run.step]
    cases Text.before? blockMark l with
    | none => exact ⟨hp, .inside⟩
    | some t => exact ⟨by simp [hp], .outside⟩
  | stopped => exact ⟨hp, .stopped⟩

theorem Alike.through {r s : Run} (h : Alike r s) (ls : List Text) :
    Alike (r.through ls) (s.through ls) := by
  induction ls generalizing r s with
  | nil => exact h
  | cons l ls ih => exact ih (h.step l)

end Run

/-! ## What the run of a document says of it -/

section

variable {name : Text} {ls ms : List Text} {r s : Run}

/-- The run over the lines says whether they are accepted, and with which entries. -/
theorem ofLines_eq_ok_iff_of_scan (h : scan 1 ls = (r.entries, r.fault?)) {doc : Document} :
    ofLines name ls = .ok doc ↔
      (r.entries.map Entry.folded).Nodup ∧ r.place = .outside ∧ doc = ⟨name, ls, r.entries⟩ := by
  rw [ofLines_eq_ok_iff, h, repeated?_eq_none_iff, Run.fault?_eq_none_iff]
  simp

theorem ofLines_eq_error_iff_of_scan (h : scan 1 ls = (r.entries, r.fault?)) :
    (∃ e, ofLines name ls = .error e) ↔
      ¬((r.entries.map Entry.folded).Nodup ∧ r.place = .outside) := by
  constructor
  · rintro ⟨e, he⟩ ⟨hd, hp⟩
    rw [(ofLines_eq_ok_iff_of_scan h).mpr ⟨hd, hp, rfl⟩] at he
    cases he
  · intro hn
    cases hr : ofLines name ls with
    | error e => exact ⟨e, rfl⟩
    | ok doc =>
      obtain ⟨hd, hp, -⟩ := (ofLines_eq_ok_iff_of_scan h).mp hr
      exact absurd ⟨hd, hp⟩ hn

/-- Documents whose runs end alike are both refused, or hold the same keys and values. -/
theorem ofLines_of_alike (name : Text) (hr : scan 1 ls = (r.entries, r.fault?))
    (hs : scan 1 ms = (s.entries, s.fault?)) (h : r.Alike s) :
    (∃ doc doc', ofLines name ls = .ok doc ∧ ofLines name ms = .ok doc' ∧
      pairs doc.entries = pairs doc'.entries) ∨
    (∃ e, ofLines name ls = .error e) ∧ ∃ e, ofLines name ms = .error e := by
  have hiff : (r.entries.map Entry.folded).Nodup ∧ r.place = .outside ↔
      (s.entries.map Entry.folded).Nodup ∧ s.place = .outside := by
    rw [map_folded_eq, map_folded_eq, h.pairs, h.place.outside_iff]
  rw [ofLines_eq_error_iff_of_scan hr, ofLines_eq_error_iff_of_scan hs, ← hiff, and_self]
  by_cases hok : (r.entries.map Entry.folded).Nodup ∧ r.place = .outside
  · obtain ⟨hd, hp⟩ := hok
    obtain ⟨hd', hp'⟩ := hiff.mp ⟨hd, hp⟩
    exact .inl ⟨_, _, (ofLines_eq_ok_iff_of_scan hr).mpr ⟨hd, hp, rfl⟩,
      (ofLines_eq_ok_iff_of_scan hs).mpr ⟨hd', hp', rfl⟩, h.pairs⟩
  · exact .inr hok

end

end Packaging.Document
