import Mathlib.Algebra.Group.Nat.Defs
import Packaging.Calendar.Pattern
import Packaging.Proofs.Text.Cut
import Packaging.Proofs.Text.Trim

/-! A date is read back from its own text, in any year. The first of the patterns fits it: the year
is four digits or carries a sign, and month and day are two digits each. -/

namespace Packaging

/-! ## Digits -/

theorem Text.isBlank_of_isDigit {c : Char} (h : c.isDigit = true) : Text.isBlank c = false := by
  change (decide (48 ≤ c.val) && decide (c.val ≤ 57)) = true at h
  simp only [Bool.and_eq_true, decide_eq_true_eq, UInt32.le_iff_toNat_le] at h
  change 48 ≤ c.toNat ∧ c.toNat ≤ 57 at h
  simp only [Text.isBlank, Bool.or_eq_false_iff, Bool.and_eq_false_iff, decide_eq_false_iff_not,
    beq_eq_false_iff_ne]
  omega

namespace Text

theorem isDigit_of_mem_padded {width n : Nat} {c : Char} (h : c ∈ padded width n) :
    c.isDigit = true := by
  rcases List.mem_append.mp h with h | h
  · rw [List.eq_of_mem_replicate h]
    rfl
  · exact Nat.isDigit_of_mem_toDigits (by decide) (by decide) h

theorem ofDigitChars_padded (width n : Nat) : Nat.ofDigitChars 10 (padded width n) 0 = n := by
  rw [padded, Nat.ofDigitChars_append, Nat.ofDigitChars_replicate_zero, Nat.mul_zero, ofNat,
    Nat.ofDigitChars_ten_toDigits]

theorem length_padded {width n : Nat} (hw : 0 < width) (h : n < 10 ^ width) :
    (padded width n).length = width := by
  have hl : (ofNat n).length ≤ width := (Nat.length_toDigits_le_iff (by decide) hw).mpr h
  rw [padded, List.length_append, List.length_replicate]
  omega

theorem padded_ne_nil (width n : Nat) : padded width n ≠ [] :=
  List.append_ne_nil_of_right_ne_nil _ Nat.toDigits_ne_nil

theorem takeWhile_padded (width n : Nat) {r : Text} (hr : ∀ c ∈ r.head?, c.isDigit = false) :
    (padded width n ++ r).takeWhile Char.isDigit = padded width n := by
  rw [List.takeWhile_append_of_pos fun c => isDigit_of_mem_padded]
  cases r with
  | nil => simp
  | cons c r => rw [List.takeWhile_cons_of_neg (by simp [hr c rfl]), List.append_nil]

theorem trimStart_padded (width n : Nat) (r : Text) :
    trimStart (padded width n ++ r) = padded width n ++ r := by
  refine trimStart_of_head fun c hc => isBlank_of_isDigit ?_
  rw [List.head?_append_of_ne_nil _ (padded_ne_nil width n)] at hc
  exact isDigit_of_mem_padded (List.mem_of_mem_head? hc)

end Text

namespace Calendar

open Text (padded)

/-! ## Numbers -/

theorem readNumber_padded {width n : Nat} (hw : 0 < width) (h : n < 10 ^ width) (r : Text) :
    readNumber width (padded width n ++ r) = some (n, r) := by
  have hl := Text.length_padded hw h
  have hd : ((padded width n ++ r).take width).takeWhile Char.isDigit = padded width n := by
    rw [List.take_left' hl, List.takeWhile_eq_self_iff]
    exact fun c => Text.isDigit_of_mem_padded
  simp only [readNumber, Text.trimStart_padded, hd, Text.ofDigitChars_padded, List.drop_left]
  simp [Text.padded_ne_nil]

/-- Behind its sign a year may have any number of digits. -/
theorem readYear_signed {sign : Char} {n : Nat} {r : Text} {y : Int}
    (hs : sign = '-' ∧ y = -n ∨ sign = '+' ∧ y = n) (hr : ∀ c ∈ r.head?, c.isDigit = false) :
    readYear (sign :: (padded 4 n ++ r)) = some (y, r) := by
  have ht := Text.takeWhile_padded 4 n hr
  have hb : Text.trimStart (sign :: (padded 4 n ++ r)) = sign :: (padded 4 n ++ r) := by
    rcases hs with ⟨rfl, -⟩ | ⟨rfl, -⟩ <;> rfl
  unfold readYear
  rw [hb]
  rcases hs with ⟨rfl, rfl⟩ | ⟨rfl, rfl⟩
  · simp only [ht, Text.ofDigitChars_padded, List.drop_left]
    simp [Text.padded_ne_nil]
  · simp only [ht, Text.ofDigitChars_padded, List.drop_left]
    simp [Text.padded_ne_nil]

theorem readYear_plain {n : Nat} (h : n < 10 ^ 4) (r : Text) :
    readYear (padded 4 n ++ r) = some ((n : Int), r) := by
  obtain ⟨d, ds, hd⟩ := List.exists_cons_of_ne_nil (Text.padded_ne_nil 4 n)
  have hdigit : d.isDigit = true := by
    have hmem : d ∈ padded 4 n := by simp [hd]
    exact Text.isDigit_of_mem_padded hmem
  have hn := readNumber_padded (by decide) h r
  unfold readYear
  rw [Text.trimStart_padded]
  rw [hd] at hn ⊢
  -- a digit is no sign
  split
  · rename_i he
    rw [(List.cons.inj he).1] at hdigit
    cases hdigit
  · rename_i he
    rw [(List.cons.inj he).1] at hdigit
    cases hdigit
  · rw [hn]
    rfl

theorem readYear_yearText (y : Int) {r : Text} (hr : ∀ c ∈ r.head?, c.isDigit = false) :
    readYear (Date.yearText y ++ r) = some (y, r) := by
  unfold Date.yearText
  split
  · exact readYear_signed (.inl ⟨rfl, by omega⟩) hr
  · split
    · have hn : y = (y.natAbs : Int) := by omega
      rw [readYear_plain (by omega), ← hn]
    · exact readYear_signed (.inr ⟨rfl, by omega⟩) hr

/-! ## Dates -/

theorem readField_mark (d : Draft) (c : Char) (r : Text) :
    readField d (c :: r) (.mark c) = some (d, r) := by
  have h : Text.after? [c] (c :: r) = some r := Text.after?_eq_some_iff.mpr rfl
  rw [readField, h]
  rfl

namespace Date

theorem month_lt (d : Date) : d.month < 10 ^ 2 := by
  have h := d.valid
  simp only [isDate, Bool.and_eq_true, decide_eq_true_eq] at h
  omega

theorem day_lt (d : Date) : d.day < 10 ^ 2 := by
  have h := d.valid
  have hmax : daysIn d.year d.month ≤ 31 := by
    unfold daysIn
    split
    · split <;> decide
    · split <;> decide
  simp only [isDate, Bool.and_eq_true, decide_eq_true_eq] at h
  omega

theorem of?_self (d : Date) : of? d.year d.month d.day = some d := by
  rw [of?, dif_pos d.valid]

theorem readPattern_text (d : Date) :
    readPattern {} [.year, .mark '-', .month, .mark '-', .day] d.text = some d := by
  have htext : d.text = yearText d.year ++ ('-' :: (padded 2 d.month ++ '-' ::
      (padded 2 d.day ++ []))) := by simp [text]
  have hdash : ∀ r : Text, ∀ c ∈ ('-' :: r).head?, c.isDigit = false := by
    intro r c hc
    obtain rfl := Option.some.inj hc
    rfl
  rw [htext]
  simp only [readPattern]
  rw [readField, readYear_yearText d.year (hdash _)]
  simp only [Option.map_some, Option.bind_some, readField_mark]
  rw [readField, readNumber_padded (by decide) d.month_lt]
  simp only [Option.map_some, Option.bind_some, readField_mark]
  rw [readField, readNumber_padded (by decide) d.day_lt]
  exact d.of?_self

/-- The characters of a written date. -/
theorem mem_text {d : Date} {c : Char} (h : c ∈ d.text) :
    c.isDigit = true ∨ c = '-' ∨ c = '+' := by
  have hyear : ∀ c ∈ yearText d.year, c.isDigit = true ∨ c = '-' ∨ c = '+' := by
    intro c hc
    unfold yearText at hc
    split at hc
    · rcases List.mem_cons.mp hc with hc | hc
      · exact .inr (.inl hc)
      · exact .inl (Text.isDigit_of_mem_padded hc)
    · split at hc
      · exact .inl (Text.isDigit_of_mem_padded hc)
      · rcases List.mem_cons.mp hc with hc | hc
        · exact .inr (.inr hc)
        · exact .inl (Text.isDigit_of_mem_padded hc)
  simp only [text, List.mem_append, List.mem_cons] at h
  rcases h with (h | h | h) | h | h
  · exact hyear c h
  · exact .inr (.inl h)
  · exact .inl (Text.isDigit_of_mem_padded h)
  · exact .inr (.inl h)
  · exact .inl (Text.isDigit_of_mem_padded h)

theorem text_ne_nil (d : Date) : d.text ≠ [] := by simp [text]

theorem not_mem_text (d : Date) {c : Char} (h : c.isDigit = false ∧ c ≠ '-' ∧ c ≠ '+') :
    c ∉ d.text := by
  intro hc
  rcases mem_text hc with hd | hd | hd
  · rw [h.1] at hd
    cases hd
  · exact h.2.1 hd
  · exact h.2.2 hd

theorem isBlank_of_mem_text {d : Date} {c : Char} (h : c ∈ d.text) : Text.isBlank c = false := by
  rcases mem_text h with h | rfl | rfl
  · exact Text.isBlank_of_isDigit h
  · decide
  · decide

theorem trimmed_text (d : Date) : Text.Trimmed d.text :=
  ⟨fun _ hc => isBlank_of_mem_text (List.mem_of_mem_head? hc),
    fun _ hc => isBlank_of_mem_text (List.mem_of_getLast? hc)⟩

/-- A written date is read as the date. -/
theorem ofText?_text (d : Date) : ofText? d.text = some d := by
  have hcomma : d.text.map (fun c => if c = ',' then ' ' else c) = d.text := by
    refine (List.map_congr_left fun c hc => ?_).trans (List.map_id _)
    rw [if_neg]
    · rfl
    · rintro rfl
      exact d.not_mem_text (by decide) hc
  have hwords : Text.words d.text = [d.text] := by
    rw [Text.words, Text.cutAt_eq_splitOnP,
      List.splitOnP_eq_singleton fun c => isBlank_of_mem_text]
    simp [d.text_ne_nil]
  unfold ofText?
  simp only [hcomma, hwords, List.intercalate_singleton]
  rw [patterns, List.findSome?_cons, d.readPattern_text]

end Date

end Calendar

end Packaging
