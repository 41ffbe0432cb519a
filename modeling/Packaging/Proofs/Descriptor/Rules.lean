import Packaging.Proofs.Descriptor.Reading
import Packaging.Proofs.Version

/-! The rule of each kind of setting, on nothing but the text that a document gives for it. A
setting is read if and only if its text keeps the rule: its characters, its form, and the files that
it names. -/

namespace Packaging

/-! ## Readers -/

theorem bind_eq_ok_iff {α β : Type} {r : Except SettingFault α} {f : α → Except SettingFault β}
    {b : β} : r >>= f = .ok b ↔ ∃ a, r = .ok a ∧ f a = .ok b := by
  cases r with
  | error e => exact ⟨nofun, nofun⟩
  | ok a => exact ⟨fun h => ⟨a, rfl, h⟩, fun ⟨_, ha, hb⟩ => Except.ok.inj ha ▸ hb⟩

theorem exists_map_iff {α β : Type} {f : α → β} {r : Except SettingFault α} :
    (∃ b, f <$> r = .ok b) ↔ ∃ a, r = .ok a := by
  cases r with
  | error e => exact ⟨nofun, nofun⟩
  | ok a => exact ⟨fun _ => ⟨a, rfl⟩, fun _ => ⟨f a, rfl⟩⟩

theorem exists_mapM_iff {α β : Type} {f : α → Except SettingFault β} {xs : List α} :
    (∃ ys, xs.mapM f = .ok ys) ↔ ∀ x ∈ xs, ∃ y, f x = .ok y := by
  induction xs with
  | nil => exact ⟨fun _ => nofun, fun _ => ⟨[], rfl⟩⟩
  | cons x xs ih =>
    rw [List.forall_mem_cons, ← ih]
    simp only [List.mapM_cons, bind_eq_ok_iff]
    constructor
    · rintro ⟨_, y, hy, ys, hys, -⟩
      exact ⟨⟨y, hy⟩, ys, hys⟩
    · rintro ⟨⟨y, hy⟩, ys, hys⟩
      exact ⟨y :: ys, y, hy, ys, hys, rfl⟩

/-! ## Rules -/

/-- The text keeps to one line and to the characters of its class. -/
def Fits (cls : CharClass) (t : Text) : Prop := '\n' ∉ t ∧ cls.fault? t = none

namespace Kind

/-- The setting has no value of its own to fall back on. -/
def IsMandatory : Kind → Prop
  | .required _ => True
  | .version => True
  | _ => False

/-- What a text has to be to give a setting its value. -/
def Takes (base : Path) (check : PathCheck) : Kind → Text → Prop
  | .required cls, t => Fits cls t
  | .optional cls, t => Fits cls t
  | .defaulted cls _, t => Fits cls t
  | .version, t => Fits .oneWord t ∧ ∃ n r, Version.Splits (Text.trim t) n r
  | .flag _, t => Text.sameLetters t "true".toList = true ∨ Text.sameLetters t "false".toList = true
  | .path, t => Fits .safe t ∧
      (Text.sameLetters t disabledWord = true ∨ check.passes (resolve base t) = true)
  | .directory _, t => Fits .safe t
  | .paths, t => ∀ i ∈ Text.items t,
      CharClass.fault? .safe i = none ∧ check.passes (resolve base i) = true
  | .items rule, t => ∀ i ∈ Text.items t,
      CharClass.fault? .safe i = none ∧ rule.start <+: i ∧ rule.part <:+: i
  | .paragraphs, _ => True

/-- The rule of a setting, for the text that a document gives if that is not blank. -/
def Accepts (base : Path) (check : PathCheck) (k : Kind) : Option Text → Prop
  | none => ¬k.IsMandatory
  | some t => k.Takes base check t

theorem exists_readLine_iff {cls : CharClass} {t : Text} :
    (∃ v, readLine cls t = .ok v) ↔ Fits cls t := by
  simp only [readLine_eq_ok_iff, exists_eq_left, Fits]

theorem exists_readVersion_iff {t : Text} :
    (∃ v, readVersion t = .ok v) ↔
      Fits .oneWord t ∧ ∃ n r, Version.Splits (Text.trim t) n r := by
  have hparts : (∃ v, Version.ofText? t = some v) ↔ ∃ n r, Version.Splits (Text.trim t) n r := by
    simp only [Version.ofText?, Option.map_eq_some_iff, ← Version.split?_eq_some_iff]
    exact ⟨fun ⟨_, p, hp, _⟩ => ⟨p.1, p.2, hp⟩, fun ⟨n, r, h⟩ => ⟨_, (n, r), h, rfl⟩⟩
  simp only [readVersion, bind_eq_ok_iff, readLine_eq_ok_iff, ← hparts, Fits]
  constructor
  · rintro ⟨v, _, ⟨rfl, hn, hf⟩, hv⟩
    split at hv
    · rename_i u hu
      exact ⟨⟨hn, hf⟩, u, hu⟩
    · cases hv
  · rintro ⟨⟨hn, hf⟩, u, hu⟩
    exact ⟨u, t, ⟨rfl, hn, hf⟩, by rw [hu]⟩

theorem exists_readFlag_iff {t : Text} :
    (∃ v, readFlag t = .ok v) ↔
      Text.sameLetters t "true".toList = true ∨ Text.sameLetters t "false".toList = true := by
  unfold readFlag
  cases Text.sameLetters t "true".toList <;> cases Text.sameLetters t "false".toList <;> simp

theorem exists_readPresent_iff {base : Path} {check : PathCheck} {t : Text} :
    (∃ p, readPresent base check t = .ok p) ↔ check.passes (resolve base t) = true := by
  unfold readPresent
  by_cases hp : check.passes (resolve base t) = true <;> simp [hp]

theorem exists_readPath_iff {base : Path} {check : PathCheck} {t : Text} :
    (∃ v, readPath base check t = .ok v) ↔
      Fits .safe t ∧
        (Text.sameLetters t disabledWord = true ∨ check.passes (resolve base t) = true) := by
  have hrest : (∃ v, (if Text.sameLetters t disabledWord then .ok .disabled
      else PathValue.resolved <$> readPresent base check t) = Except.ok v) ↔
      Text.sameLetters t disabledWord = true ∨ check.passes (resolve base t) = true := by
    cases Text.sameLetters t disabledWord with
    | true => simp
    | false => simpa using exists_map_iff.trans exists_readPresent_iff
  rw [← hrest]
  simp only [readPath, bind_eq_ok_iff, readLine_eq_ok_iff, Fits]
  exact ⟨fun ⟨v, _, ⟨he, hf⟩, hv⟩ => ⟨hf, v, he ▸ hv⟩, fun ⟨hf, v, hv⟩ => ⟨v, t, ⟨rfl, hf⟩, hv⟩⟩

theorem exists_readItem_iff {rule : ItemRule} {t : Text} :
    (∃ v, readItem rule t = .ok v) ↔
      CharClass.fault? .safe t = none ∧ rule.start <+: t ∧ rule.part <:+: t := by
  simp only [readItem_eq_ok_iff, exists_eq_left]

theorem exists_readPaths_iff {base : Path} {check : PathCheck} {t : Text} :
    (∃ ps, Kind.paths.read base check (some t) = .ok ps) ↔
      ∀ i ∈ Text.items t,
        CharClass.fault? .safe i = none ∧ check.passes (resolve base i) = true := by
  have hany : (∃ is, readItems anyItem t = .ok is) ↔
      ∀ i ∈ Text.items t, CharClass.fault? .safe i = none := by
    simp only [readItems, exists_mapM_iff, exists_readItem_iff]
    exact forall₂_congr fun i _ => ⟨fun h => h.1, fun h => ⟨h, List.nil_prefix, List.nil_infix⟩⟩
  simp only [forall_and, ← hany, read, bind_eq_ok_iff]
  constructor
  · rintro ⟨ps, is, his, hps⟩
    obtain ⟨rfl, -⟩ := readItems_eq_ok his
    exact ⟨⟨_, his⟩, fun i hi => exists_readPresent_iff.mp (exists_mapM_iff.mp ⟨ps, hps⟩ i hi)⟩
  · rintro ⟨⟨is, his⟩, hp⟩
    obtain ⟨rfl, -⟩ := readItems_eq_ok his
    obtain ⟨ps, hps⟩ := exists_mapM_iff.mpr fun i hi => exists_readPresent_iff.mpr (hp i hi)
    exact ⟨ps, _, his, hps⟩

/-- A setting is read if and only if its text keeps the rule. -/
theorem exists_read_iff {base : Path} {check : PathCheck} {k : Kind} {o : Option Text} :
    (∃ v, k.read base check o = .ok v) ↔ k.Accepts base check o := by
  cases o with
  | none => cases k <;> simp [read, Accepts, IsMandatory]
  | some t =>
    cases k with
    | required cls => exact exists_readLine_iff
    | optional cls => exact exists_map_iff.trans exists_readLine_iff
    | defaulted cls value => exact exists_readLine_iff
    | version => exact exists_readVersion_iff
    | flag value => exact exists_readFlag_iff
    | path => exact exists_readPath_iff
    | directory value =>
      exact (exists_map_iff.trans exists_readPath_iff).trans (and_iff_left (.inr rfl))
    | paths => exact exists_readPaths_iff
    | items rule => exact exists_mapM_iff.trans (forall₂_congr fun i _ => exists_readItem_iff)
    | paragraphs => exact ⟨fun _ => trivial, fun _ => ⟨_, rfl⟩⟩

end Kind

end Packaging
