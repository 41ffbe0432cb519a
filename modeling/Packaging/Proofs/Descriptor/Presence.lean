import Packaging.Proofs.Descriptor.FirstFault

/-! Checking paths only filters. A reading that looks for the files it names is the reading that
does not, less the values whose files are missing; so the checked run of a document gives what the
other gives, or is refused for a missing file, and then for the first in the order of declaration.
-/

namespace Packaging

/-! ## One value -/

namespace Kind

/-- The paths of a value that have to exist. -/
def references : (k : Kind) → k.Value → List Path
  | .path, v => v.path?.toList
  | .paths, ps => ps
  | _, _ => []

/-- The value, unless one of its paths is missing. -/
def checked (isPresent : Path → Bool) (k : Kind) (v : k.Value) : Except SettingFault k.Value :=
  match (k.references v).find? (!isPresent ·) with
  | none => .ok v
  | some p => .error (.absent p)

variable {isPresent : Path → Bool} {base : Path}

theorem checked_eq_ok_iff {k : Kind} {v w : k.Value} :
    k.checked isPresent v = .ok w ↔ v = w ∧ ∀ p ∈ k.references v, isPresent p = true := by
  have hall : (∀ p ∈ k.references v, isPresent p = true) ↔
      (k.references v).find? (!isPresent ·) = none := by simp
  rw [hall, checked]
  cases (k.references v).find? (!isPresent ·) <;> simp

theorem checked_eq_error_iff {k : Kind} {v : k.Value} {fault : SettingFault} :
    k.checked isPresent v = .error fault ↔
      ∃ p, (k.references v).find? (!isPresent ·) = some p ∧ .absent p = fault := by
  unfold checked
  cases (k.references v).find? (!isPresent ·) <;> simp

theorem faultOf_checked {k : Kind} {v : k.Value} :
    Setting.faultOf (k.checked isPresent v) =
      ((k.references v).find? (!isPresent ·)).map .absent := by
  unfold checked
  cases (k.references v).find? (!isPresent ·) <;> rfl

/-- A value without paths passes every check. -/
theorem bind_checked_of_references {k : Kind} (h : ∀ v : k.Value, k.references v = [])
    (r : Except SettingFault k.Value) : r >>= k.checked isPresent = r := by
  cases r with
  | error e => rfl
  | ok v => exact checked_eq_ok_iff.mpr ⟨rfl, by simp [h v]⟩

theorem mapM_readPresent_on (ts : List Text) :
    ts.mapM (readPresent base (.on isPresent)) =
      Kind.paths.checked isPresent (ts.map (resolve base)) := by
  induction ts with
  | nil => rfl
  | cons t ts ih =>
    rw [List.mapM_cons, ih]
    by_cases hp : isPresent (resolve base t) = true
    · simp only [readPresent, PathCheck.passes, hp, checked, references, List.map_cons, if_true,
        List.find?_cons, Bool.not_true]
      cases (ts.map (resolve base)).find? (!isPresent ·) <;> rfl
    · simp [readPresent, PathCheck.passes, hp, checked, references, bind, Except.bind]

theorem readPath_on (t : Text) :
    readPath base (.on isPresent) t =
      readPath base .off t >>= Kind.path.checked isPresent := by
  unfold readPath
  cases readLine .safe t with
  | error e => rfl
  | ok u =>
    by_cases hd : Text.sameLetters u disabledWord = true
    · simp [bind, Except.bind, hd, checked, references, PathValue.path?]
    · by_cases hp : isPresent (resolve base u) = true <;>
        simp [bind, Except.bind, hd, readPresent, PathCheck.passes, hp, checked, references,
          PathValue.path?]

/-- The checked reading is the unchecked one with the check behind it. -/
theorem read_on (k : Kind) (o : Option Text) :
    k.read base (.on isPresent) o = k.read base .off o >>= k.checked isPresent := by
  cases o with
  | none => cases k <;> rfl
  | some t =>
    cases k with
    | path => exact readPath_on t
    | paths =>
      simp only [read]
      cases readItems anyItem t with
      | error e => rfl
      | ok is =>
        have hoff : is.mapM (readPresent base .off) = .ok (is.map (resolve base)) :=
          mapM_eq_ok fun i _ => rfl
        simp only [bind, Except.bind, hoff, mapM_readPresent_on]
    | _ => exact (bind_checked_of_references (fun _ => rfl) _).symm

end Kind

namespace Setting

/-- The settings whose files are looked for, in the order of declaration. The directory of the
output is not among them. -/
def asserted : List Setting :=
  [appLicenseFile, appChangeFile, desktopFile, metaFile, iconFiles, dotnetProjectPath,
   dotnetPostPublish, dotnetPostPublishOnWindows]

theorem mem_asserted {s : Setting} {v : s.Value} {p : Path} (h : p ∈ s.kind.references v) :
    s ∈ asserted := by
  cases s <;> first | decide | exact absurd h List.not_mem_nil

theorem read_on_eq_ok_iff {s : Setting} {doc : Document} {base : Path} {isPresent : Path → Bool}
    {v : s.Value} :
    s.read doc base (.on isPresent) = .ok v ↔
      s.read doc base .off = .ok v ∧ ∀ p ∈ s.kind.references v, isPresent p = true := by
  rw [read, Kind.read_on, bind_eq_ok_iff]
  constructor
  · rintro ⟨w, hw, hc⟩
    obtain ⟨rfl, hp⟩ := Kind.checked_eq_ok_iff.mp hc
    exact ⟨hw, hp⟩
  · rintro ⟨hv, hp⟩
    exact ⟨v, hv, Kind.checked_eq_ok_iff.mpr ⟨rfl, hp⟩⟩

end Setting

/-! ## Descriptors -/

namespace Descriptor

/-- The paths that have to exist, each with its setting, in the order of declaration. -/
def references (d : Descriptor) : List (Setting × Path) :=
  Setting.asserted.flatMap fun s => (s.kind.references (d.value s)).map (s, ·)

theorem references_eq (d : Descriptor) :
    d.references = Setting.all.flatMap fun s => (s.kind.references (d.value s)).map (s, ·) := rfl

variable {doc : Document} {base : Path} {isPresent : Path → Bool} {d : Descriptor}

theorem forall_mem_references {P : Path → Prop} :
    (∀ r ∈ d.references, P r.2) ↔ ∀ s : Setting, ∀ p ∈ s.kind.references (d.value s), P p := by
  simp only [references_eq, List.mem_flatMap, List.mem_map]
  constructor
  · exact fun h s p hp => h (s, p) ⟨s, Setting.mem_all s, p, hp, rfl⟩
  · rintro h r ⟨s, -, p, hp, rfl⟩
    exact h s p hp

theorem ofDocument_on_eq_ok_iff :
    ofDocument doc base (.on isPresent) = .ok d ↔
      ofDocument doc base .off = .ok d ∧ ∀ r ∈ d.references, isPresent r.2 = true := by
  rw [ofDocument_eq_ok_iff, ofDocument_eq_ok_iff, forall_mem_references (P := (isPresent · = true))]
  simp only [Setting.read_on_eq_ok_iff, forall_and, and_assoc]

/-- The first missing path is what the checked run is refused for. -/
theorem firstFault?_on (isPresent : Path → Bool) (h : ofDocument doc base .off = .ok d) :
    (Setting.firstFault? fun s => s.read doc base.normal (.on isPresent)) =
      (d.references.find? fun r => !isPresent r.2).map fun r => (r.1, .absent r.2) := by
  have hread := (ofDocument_eq_ok_iff.mp h).2.2
  rw [references_eq, List.find?_flatMap, Setting.firstFault?, List.map_findSome?]
  congr 1
  funext s
  have hs : s.read doc base.normal (.on isPresent) = s.kind.checked isPresent (d.value s) := by
    rw [Setting.read, Kind.read_on]
    exact congrArg (· >>= _) (hread s)
  rw [hs, Kind.faultOf_checked, Function.comp_apply, List.find?_map, Option.map_map, Option.map_map]
  rfl

theorem refused_for_first_absent (h : ofDocument doc base .off = .ok d)
    (hm : ∃ r ∈ d.references, isPresent r.2 = false) :
    ∃ front s p back, d.references = front ++ (s, p) :: back ∧
      (∀ r ∈ front, isPresent r.2 = true) ∧ isPresent p = false ∧
      ofDocument doc base (.on isPresent) = .error (.setting s (.absent p)) := by
  have hfirst := firstFault?_on isPresent h
  cases hf : d.references.find? fun r => !isPresent r.2 with
  | none =>
    obtain ⟨r, hr, hp⟩ := hm
    exact absurd hp (by simpa using List.find?_eq_none.mp hf r hr)
  | some r =>
    obtain ⟨hp, front, back, hd, hfront⟩ := List.find?_eq_some_iff_append.mp hf
    rw [hf] at hfirst
    refine ⟨front, r.1, r.2, back, hd, by simpa using hfront, by simpa using hp, ?_⟩
    exact ofDocument_eq_error_iff.mpr ⟨_, _, rfl, Setting.firstFault?_eq_some_iff.mp hfirst⟩

theorem refused_alike_or_for_absent {e : Fault} (h : ofDocument doc base .off = .error e) :
    ∃ s fault, e = .setting s fault ∧ (ofDocument doc base (.on isPresent) = .error e ∨
      ∃ t ∈ Setting.asserted, t.Precedes s ∧ ∃ v p, t.read doc base.normal .off = .ok v ∧
        (t.kind.references v).find? (!isPresent ·) = some p ∧
        ofDocument doc base (.on isPresent) = .error (.setting t (.absent p))) := by
  obtain ⟨s, fault, rfl, hs, hbefore⟩ := ofDocument_eq_error_iff.mp h
  refine ⟨s, fault, rfl, ?_⟩
  have hon : s.read doc base.normal (.on isPresent) = .error fault := by
    rw [Setting.read, Kind.read_on]
    exact congrArg (· >>= _) hs
  cases hr : ofDocument doc base (.on isPresent) with
  | ok d =>
    have hv := (ofDocument_eq_ok_iff.mp hr).2.2 s
    rw [hon] at hv
    cases hv
  | error f =>
    obtain ⟨t, fault', rfl, ht, hfront⟩ := ofDocument_eq_error_iff.mp hr
    rcases Setting.precedes_or_eq_or_precedes t s with hts | rfl | hst
    · right
      obtain ⟨v, hv⟩ := hbefore t hts
      have hc : t.kind.checked isPresent v = .error fault' := by
        rw [Setting.read, Kind.read_on, ← Setting.read, hv] at ht
        exact ht
      obtain ⟨p, hp, rfl⟩ := Kind.checked_eq_error_iff.mp hc
      exact ⟨t, Setting.mem_asserted (List.mem_of_find?_eq_some hp), hts, v, p, hv, hp, rfl⟩
    · left
      rw [hon] at ht
      rw [Except.error.inj ht]
    · obtain ⟨v, hv⟩ := hfront s hst
      rw [hon] at hv
      cases hv

/-- The checked run of a document gives a descriptor if and only if the other gives it and all files
that it refers to exist. If one of them is missing the first is the fault, and where the other run
is refused the checked one is refused alike, or for a file of a setting before. -/
theorem checking_only_filters (doc : Document) (base : Path) (isPresent : Path → Bool) :
    (∀ d, ofDocument doc base (.on isPresent) = .ok d ↔
      ofDocument doc base .off = .ok d ∧ ∀ r ∈ d.references, isPresent r.2 = true) ∧
    (∀ d, ofDocument doc base .off = .ok d → (∃ r ∈ d.references, isPresent r.2 = false) →
      ∃ front s p back, d.references = front ++ (s, p) :: back ∧
        (∀ r ∈ front, isPresent r.2 = true) ∧ isPresent p = false ∧
        ofDocument doc base (.on isPresent) = .error (.setting s (.absent p))) ∧
    (∀ e, ofDocument doc base .off = .error e →
      ∃ s fault, e = .setting s fault ∧ (ofDocument doc base (.on isPresent) = .error e ∨
        ∃ t ∈ Setting.asserted, t.Precedes s ∧ ∃ v p, t.read doc base.normal .off = .ok v ∧
          (t.kind.references v).find? (!isPresent ·) = some p ∧
          ofDocument doc base (.on isPresent) = .error (.setting t (.absent p)))) :=
  ⟨fun _ => ofDocument_on_eq_ok_iff, fun _ => refused_for_first_absent,
    fun _ => refused_alike_or_for_absent⟩

/-- Values with a file, two icons, and a project and an output directory that are nowhere. -/
def filedValues : List (Setting × Text) :=
  [(.appBaseName, "App".toList), (.appFriendlyName, "App".toList), (.appId, "org.app".toList),
   (.appVersionRelease, "1.0".toList), (.appShortSummary, "An app".toList),
   (.appLicenseId, "MIT".toList), (.appLicenseFile, "LICENSE".toList),
   (.publisherName, "Me".toList), (.iconFiles, "a.png;b.png".toList),
   (.dotnetProjectPath, "App.csproj".toList), (.outputDirectory, "out".toList)]

/-- The files that `filedValues` finds. -/
def isFiled (p : Path) : Bool :=
  p.text == "/base/LICENSE".toList || p.text == "/base/a.png".toList

theorem checking_only_filters_filedValues :
    ∃ d, ofDocument (Document.ofValues filedValues) ⟨"/base".toList⟩ .off = .ok d ∧
      ∃ front back, d.references = front ++ (.iconFiles, ⟨"/base/b.png".toList⟩) :: back ∧
        ∀ r ∈ front, isFiled r.2 = true := by
  obtain ⟨d, hd⟩ : ∃ d, ofDocument (Document.ofValues filedValues) ⟨"/base".toList⟩ .off = .ok d :=
    exists_ofValues (by decide +kernel)
  have hon : ofDocument (Document.ofValues filedValues) ⟨"/base".toList⟩ (.on isFiled) =
      .error (.setting .iconFiles (.absent ⟨"/base/b.png".toList⟩)) :=
    ofDocument_ofValues_eq_error (by decide +kernel)
  obtain ⟨hok, hfirst, -⟩ := checking_only_filters (Document.ofValues filedValues)
    ⟨"/base".toList⟩ isFiled
  have hmissing : ∃ r ∈ d.references, isFiled r.2 = false := by
    refine Classical.byContradiction fun hn => ?_
    have hall : ∀ r ∈ d.references, isFiled r.2 = true := by simpa using hn
    rw [(hok d).mpr ⟨hd, hall⟩] at hon
    cases hon
  obtain ⟨front, s, p, back, hrefs, hfront, -, he⟩ := hfirst d hd hmissing
  rw [hon] at he
  cases he
  exact ⟨d, hd, front, back, hrefs, hfront⟩

end Descriptor

end Packaging
