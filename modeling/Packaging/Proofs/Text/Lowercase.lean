import Packaging.Proofs.Text.Trim
import Packaging.Text.Lowercase

/-! What lower-casing leaves alone. The blanks and the signs that a line is taken apart by have no
other case, and no other character has one of them for its lower case; so two texts with one lower
case have them in the same places at their ends, or both have them not. -/

namespace Packaging.Text

/-- The code points of the blanks, and of the signs `#`, `/` and `=`. -/
def breakCodes : List Nat :=
  [0x9, 0xA, 0xB, 0xC, 0xD, 0x20, 0x23, 0x2F, 0x3D, 0x85, 0xA0, 0x1680, 0x2000, 0x2001, 0x2002,
   0x2003, 0x2004, 0x2005, 0x2006, 0x2007, 0x2008, 0x2009, 0x200A, 0x2028, 0x2029, 0x202F, 0x205F,
   0x3000]

/-- A line is taken apart by the character. -/
def isBreak (c : Char) : Bool := breakCodes.contains c.toNat

/-! ## One character -/

theorem isBreak_iff {c : Char} : isBreak c = true ↔ c.toNat ∈ breakCodes := List.contains_iff_mem

theorem isBreak_of_isBlank {c : Char} (h : isBlank c = true) : isBreak c = true := by
  simp only [isBlank, Bool.or_eq_true, Bool.and_eq_true, decide_eq_true_eq, beq_iff_eq] at h
  simp only [isBreak_iff, breakCodes, List.mem_cons, List.not_mem_nil, or_false]
  rcases h with (((((((((h | h) | h) | h) | h) | h) | h) | h) | h) | h) | h <;> omega

/-- No run of the table leads to one of the characters. -/
theorem lowerRuns_apart : ∀ r ∈ lowerRuns, ∀ n ∈ breakCodes,
    ¬(r.first + r.shift ≤ n ∧ n ≤ r.last + r.shift) := by
  decide +kernel

theorem not_isBreak_of_covers {r : CaseRun} (hr : r ∈ lowerRuns) {n : Nat}
    (hn : r.covers n = true) : ¬isBreak (Char.ofNat (n + r.shift).toNat) = true := by
  intro h
  have hmem := isBreak_iff.mp h
  have hapart := lowerRuns_apart r hr _ hmem
  have hpos : ∀ n ∈ breakCodes, 0 < n := by decide
  have hne := hpos _ hmem
  -- a number that is no code point gives the character 0
  have hval : ∀ m, (Char.ofNat m).toNat = m ∨ (Char.ofNat m).toNat = 0 := fun m => by
    by_cases hv : m.isValidChar
    · exact .inl (by rw [Char.ofNat, dif_pos hv]; rfl)
    · exact .inr (by rw [Char.ofNat, dif_neg hv]; rfl)
  simp only [CaseRun.covers, Bool.and_eq_true, decide_eq_true_eq] at hn
  rcases hval (n + r.shift).toNat with he | he <;> omega

theorem lowerChar_of_isBreak {c : Char} (h : isBreak c = true) : lowerChar c = [c] := by
  have hcodes : ∀ n ∈ breakCodes, lowerChar (Char.ofNat n) = [Char.ofNat n] := by decide +kernel
  have hc := hcodes _ (isBreak_iff.mp h)
  rwa [Char.ofNat_toNat] at hc

theorem lowerChar_ne_nil (c : Char) : lowerChar c ≠ [] := by
  unfold lowerChar
  split_ifs
  · nofun
  · nofun
  · split <;> nofun

/-- No other character is lower-cased to one of them. -/
theorem eq_of_mem_lowerChar {c d : Char} (hd : d ∈ lowerChar c) (h : isBreak d = true) : d = c := by
  by_cases hascii : c.toNat < 0x80
  · have hsmall : ∀ n < 0x80, (lowerChar (Char.ofNat n)).all
        (fun d => !isBreak d || d == Char.ofNat n) = true := by decide +kernel
    have hc := List.all_eq_true.mp (hsmall _ hascii) d (by rwa [Char.ofNat_toNat])
    simpa [h, Char.ofNat_toNat] using hc
  · unfold lowerChar at hd
    rw [if_neg hascii] at hd
    split_ifs at hd with hdot
    · have hdots : d = 'i' ∨ d = '\u0307' := by simpa using hd
      rcases hdots with rfl | rfl <;> cases h
    · split at hd
      · rename_i r hr
        have hcovers := List.find?_some hr
        have hrun := not_isBreak_of_covers (List.mem_of_find?_eq_some hr) hcovers
        rw [List.mem_singleton.mp hd] at h
        exact absurd h hrun
      · exact List.mem_singleton.mp hd

/-! ## Texts -/

theorem lowerAfter_cons (before : Text) (c : Char) (r : Text) :
    ∃ w, lowerAfter before (c :: r) = w ++ lowerAfter (c :: before) r ∧ w ≠ [] ∧
      (isBreak c = true → w = [c]) ∧ ∀ d ∈ w, isBreak d = true → d = c := by
  by_cases hs : c = '\u03A3'
  · refine ⟨_, by rw [lowerAfter, if_pos hs], List.cons_ne_nil _ _, ?_, ?_⟩
    · intro h
      rw [hs] at h
      cases h
    · intro d hd h
      rw [List.mem_singleton.mp hd] at h
      split_ifs at h <;> cases h
  · exact ⟨_, by rw [lowerAfter, if_neg hs], lowerChar_ne_nil c, lowerChar_of_isBreak,
      fun d hd h => eq_of_mem_lowerChar hd h⟩

theorem lowerAfter_eq_nil_iff {before t : Text} : lowerAfter before t = [] ↔ t = [] := by
  cases t with
  | nil => simp [lowerAfter]
  | cons c r =>
    obtain ⟨w, hw, hne, -⟩ := lowerAfter_cons before c r
    simp [hw, hne]

theorem mem_lowerAfter_iff (before : Text) {t : Text} {d : Char} (hd : isBreak d = true) :
    d ∈ lowerAfter before t ↔ d ∈ t := by
  induction t generalizing before with
  | nil => rfl
  | cons c r ih =>
    obtain ⟨w, hw, -, hc, hback⟩ := lowerAfter_cons before c r
    have hmem : d ∈ w ↔ d = c := ⟨fun h => hback d h hd, fun h => by
      rw [hc (h ▸ hd), h]; exact List.mem_singleton_self c⟩
    rw [hw, List.mem_append, ih, hmem, List.mem_cons]

theorem prefix_lowerAfter_iff (before : Text) {m t : Text} (hm : m.all isBreak = true) :
    m <+: lowerAfter before t ↔ m <+: t := by
  induction m generalizing before t with
  | nil => simp
  | cons d m ih =>
    rw [List.all_cons, Bool.and_eq_true] at hm
    obtain ⟨hd, hm⟩ := hm
    cases t with
    | nil => rfl
    | cons c r =>
      obtain ⟨w, hw, hne, hc, hback⟩ := lowerAfter_cons before c r
      rw [hw, List.cons_prefix_cons, ← ih (c :: before) hm]
      constructor
      · intro h
        obtain ⟨e, v, rfl⟩ := List.exists_cons_of_ne_nil hne
        have hde := (List.cons_prefix_cons.mp h).1
        have hdc := hback d (hde ▸ List.mem_cons_self ..) hd
        rw [hc (hdc ▸ hd)] at h
        exact List.cons_prefix_cons.mp h
      · rintro ⟨rfl, h⟩
        rw [hc hd]
        exact List.cons_prefix_cons.mpr ⟨rfl, h⟩

theorem getLast?_lowerAfter_iff (before : Text) {t : Text} {d : Char} (hd : isBreak d = true) :
    (lowerAfter before t).getLast? = some d ↔ t.getLast? = some d := by
  induction t generalizing before with
  | nil => rfl
  | cons c r ih =>
    obtain ⟨w, hw, hne, hc, hback⟩ := lowerAfter_cons before c r
    rw [hw]
    cases r with
    | nil =>
      rw [lowerAfter, List.append_nil, List.getLast?_singleton, Option.some.injEq]
      exact ⟨fun h => (hback d (List.mem_of_getLast? h) hd).symm, fun h => by
        rw [hc (h ▸ hd), h]; rfl⟩
    | cons e r =>
      have hrest : lowerAfter (c :: before) (e :: r) ≠ [] :=
        fun h => nomatch lowerAfter_eq_nil_iff.mp h
      rw [List.getLast?_append_of_ne_nil _ hrest, ih, List.getLast?_cons_cons]

/-! ## Texts with one lower case -/

section

variable {s t : Text} (h : lower s = lower t)
include h

theorem ne_nil_of_lower_eq (ht : t ≠ []) : s ≠ [] := fun hs =>
  ht (lowerAfter_eq_nil_iff.mp (h.symm.trans (lowerAfter_eq_nil_iff.mpr hs)))

theorem mem_iff_of_lower_eq {d : Char} (hd : isBreak d = true) : d ∈ s ↔ d ∈ t :=
  calc d ∈ s ↔ d ∈ lower s := (mem_lowerAfter_iff [] hd).symm
    _ ↔ d ∈ lower t := by rw [h]
    _ ↔ d ∈ t := mem_lowerAfter_iff [] hd

theorem prefix_iff_of_lower_eq {m : Text} (hm : m.all isBreak = true) :
    m <+: s ↔ m <+: t :=
  calc m <+: s ↔ m <+: lower s := (prefix_lowerAfter_iff [] hm).symm
    _ ↔ m <+: lower t := by rw [h]
    _ ↔ m <+: t := prefix_lowerAfter_iff [] hm

theorem getLast?_iff_of_lower_eq {d : Char} (hd : isBreak d = true) :
    s.getLast? = some d ↔ t.getLast? = some d :=
  calc s.getLast? = some d ↔ (lower s).getLast? = some d := (getLast?_lowerAfter_iff [] hd).symm
    _ ↔ (lower t).getLast? = some d := by rw [h]
    _ ↔ t.getLast? = some d := getLast?_lowerAfter_iff [] hd

theorem Trimmed.of_lower_eq (ht : Trimmed t) : Trimmed s := by
  refine ⟨fun c hc => ?_, fun c hc => ?_⟩
  · by_contra hb
    have hbreak := isBreak_of_isBlank (eq_true_of_ne_false hb)
    have hp := List.singleton_prefix_iff_head?_eq_some.mpr hc
    rw [prefix_iff_of_lower_eq h (by simpa using hbreak)] at hp
    exact hb (ht.head c (List.singleton_prefix_iff_head?_eq_some.mp hp))
  · by_contra hb
    have hbreak := isBreak_of_isBlank (eq_true_of_ne_false hb)
    exact hb (ht.last c ((getLast?_iff_of_lower_eq h hbreak).mp hc))

end

end Packaging.Text
