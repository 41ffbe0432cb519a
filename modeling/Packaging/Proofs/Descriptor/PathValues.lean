import Packaging.Proofs.Descriptor.Values

/-! Paths among the values. A path whose text is safe can always be written and read; it comes back
if it returns from what is seen of it and is not taken for something else there: a word that rules
paths out, or a list of two. -/

namespace Packaging

open Kind (resolve)
open Packaging.Path (seenFrom Returns)
open Text (Trimmed OwnLine)

/-- No character of the text is a hazard. -/
def Hazardless (t : Text) : Prop := ∀ c ∈ t, CharClass.isHazard c = false

theorem Hazardless.not_mem {t : Text} (h : Hazardless t) {c : Char}
    (hc : CharClass.isHazard c = true) : c ∉ t := by
  intro hm
  rw [h c hm] at hc
  cases hc

theorem IsLine.of_hazardless {t : Text} (h : Hazardless t) (ht : Trimmed t) (hne : t ≠ []) :
    IsLine .safe t :=
  ⟨ht, hne, h.not_mem rfl, CharClass.fault?_safe_eq_none_iff.mpr h⟩

theorem isLine_disabledWord : IsLine .safe disabledWord :=
  ⟨by decide, by decide, by decide, by decide⟩

theorem Hazardless.ownLine {t : Text} (h : Hazardless t) : OwnLine t :=
  ⟨h.not_mem rfl, fun he => h.not_mem (c := '\r') rfl (List.mem_of_getLast? he)⟩

theorem clean_list_of_hazardless {ts : List Text} (h : ∀ t ∈ ts, Hazardless t) :
    (Written.list ts).Clean :=
  Written.clean_of_quoteless (fun t ht => (h t ht).ownLine) fun t ht => (h t ht).not_mem rfl

theorem Hazardless.clean_line {t : Text} (h : Hazardless t) : (Written.line t).Clean :=
  Written.clean_of_quoteless (List.forall_mem_singleton.mpr h.ownLine)
    (List.forall_mem_singleton.mpr (h.not_mem rfl))

/-- A word that rules paths out holds no slash. -/
theorem slashless_of_disabled {t : Text} (h : Text.sameLetters t disabledWord = true) :
    '/' ∉ t := by
  intro hm
  have hl : t.map Char.toLower = disabledWord.map Char.toLower := beq_iff_eq.mp h
  have := List.mem_map_of_mem (f := Char.toLower) hm
  rw [hl] at this
  exact absurd this (by decide)

namespace Kind

theorem clean_paths {base : Path} {k : Kind} {v : k.Value} (hk : k.HasPaths)
    (h : ∀ p ∈ k.pathsOf v, Hazardless (seenFrom base p)) : (k.written base v).Clean := by
  cases k with
  | path =>
    cases v with
    | unset => exact clean_nothing
    | disabled => exact clean_of_isLine isLine_disabledWord nofun
    | resolved p => exact (h p (List.mem_singleton.mpr rfl)).clean_line
  | directory value => exact (h v (List.mem_singleton.mpr rfl)).clean_line
  | paths =>
    refine clean_list_of_hazardless fun t ht => ?_
    obtain ⟨p, hp, rfl⟩ := List.mem_map.mp ht
    exact h p hp
  | _ => cases hk

theorem read_paths_found {base : Path} {w : Written}
    (h : ∀ i ∈ Text.items (Text.trim w.value), CharClass.fault? .safe i = none) :
    Kind.paths.read base .off w.found? =
      .ok ((Text.items (Text.trim w.value)).map (resolve base)) := by
  unfold Written.found?
  rw [Option.filter_some]
  split
  · exact readPaths_off h
  · rename_i hn
    have hn : Text.trim w.value = [] := by simpa using hn
    rw [hn]
    rfl

/-- The paths of a value return, and what is seen of them is taken for nothing else. -/
def Faithful (base : Path) : (k : Kind) → k.Value → Prop
  | .path, v => ∀ p, v = .resolved p →
      Returns base p ∧ Text.sameLetters (seenFrom base p) disabledWord = false
  | .directory _, p =>
      Returns base p ∧ Text.sameLetters (seenFrom base p) disabledWord = false
  | .paths, ps => (∀ p ∈ ps, Returns base p) ∧ ∀ p, ps = [p] → ';' ∉ seenFrom base p
  | _, _ => True

theorem isLine_seenFrom {base p : Path} (h : Hazardless (seenFrom base p)) (hr : Returns base p) :
    IsLine .safe (seenFrom base p) := .of_hazardless h hr.trimmed hr.ne_nil

theorem readPath_seenFrom {base p : Path} (h : Hazardless (seenFrom base p)) (hr : Returns base p)
    (hd : Text.sameLetters (seenFrom base p) disabledWord = false) :
    (Written.line (seenFrom base p)).found? = some (seenFrom base p) ∧
      readPath base .off (seenFrom base p) = .ok (.resolved (resolve base (seenFrom base p))) := by
  have hl := isLine_seenFrom h hr
  refine ⟨found?_of_isLine hl, ?_⟩
  rw [readPath_off hl, if_neg (Bool.eq_false_iff.mp hd)]

theorem agrees_of_leads {base p : Path} (h : Returns base p) :
    p.agrees (resolve base (seenFrom base p)) = true := beq_iff_eq.mpr h.leads.symm

theorem read_faithful {base : Path} {k : Kind} {v : k.Value} (hk : k.HasPaths)
    (h : ∀ p ∈ k.pathsOf v, Hazardless (seenFrom base p)) (hf : k.Faithful base v) :
    ∃ w, k.read base .off (k.written base v).found? = .ok w ∧ k.agrees v w = true := by
  cases k with
  | path =>
    cases v with
    | unset => exact ⟨.unset, rfl, rfl⟩
    | disabled =>
      refine ⟨.disabled, ?_, rfl⟩
      show read base .off .path (Written.line disabledWord).found? = _
      rw [found?_of_isLine isLine_disabledWord, read, readPath_off isLine_disabledWord,
        if_pos (by decide)]
    | resolved p =>
      obtain ⟨hr, hd⟩ := hf p rfl
      obtain ⟨hfound, hread⟩ := readPath_seenFrom (h p (List.mem_singleton.mpr rfl)) hr hd
      refine ⟨.resolved (resolve base (seenFrom base p)), ?_, agrees_of_leads hr⟩
      show read base .off .path (Written.line (seenFrom base p)).found? = _
      rw [hfound, read, hread]
  | directory value =>
    obtain ⟨hr, hd⟩ := hf
    obtain ⟨hfound, hread⟩ := readPath_seenFrom (h v (List.mem_singleton.mpr rfl)) hr hd
    refine ⟨resolve base (seenFrom base v), ?_, agrees_of_leads hr⟩
    unfold written
    rw [hfound, read, hread]
    rfl
  | paths =>
    obtain ⟨hr, hs⟩ := hf
    have hl : ∀ t ∈ v.map (seenFrom base), IsLine .safe t := by
      intro t ht
      obtain ⟨p, hp, rfl⟩ := List.mem_map.mp ht
      exact isLine_seenFrom (h p hp) (hr p hp)
    have hitems := Written.items_value_list (fun t ht => (hl t ht).feedless)
      (fun t ht => (hl t ht).trimmed) (fun t ht => (hl t ht).ne_nil) (by
        intro t ht
        obtain ⟨p, rfl, rfl⟩ := List.map_eq_singleton_iff.mp ht
        exact hs p rfl)
    refine ⟨(v.map (seenFrom base)).map (resolve base), ?_, ?_⟩
    · unfold written
      rw [read_paths_found, hitems]
      rw [hitems]
      exact fun i hi => (hl i hi).accepted
    · refine beq_iff_eq.mpr ?_
      rw [List.map_map, List.map_map]
      exact List.map_congr_left fun p hp => (hr p hp).leads.symm
  | _ => cases hk

end Kind

end Packaging
