import Packaging.Proofs.Descriptor.RoundTrip
import Packaging.Proofs.Descriptor.Rules

/-! Which fault a document is refused for. The settings are taken in the order of declaration, and
the first whose rule is broken gives the fault; so the fault depends on the settings up to that one,
and what stands in the document for any other makes no difference. -/

namespace Packaging

namespace Setting

/-- `s` is declared before `t`. -/
def Precedes (s t : Setting) : Prop := all.idxOf s < all.idxOf t

instance (s t : Setting) : Decidable (s.Precedes t) :=
  inferInstanceAs (Decidable (all.idxOf s < all.idxOf t))

theorem precedes_or_eq_or_precedes (s t : Setting) : s.Precedes t ∨ s = t ∨ t.Precedes s := by
  rcases Nat.lt_trichotomy (all.idxOf s) (all.idxOf t) with h | h | h
  · exact .inl h
  · exact .inr (.inl ((List.idxOf_inj (mem_all s)).mp h))
  · exact .inr (.inr h)

theorem not_precedes_self (s : Setting) : ¬s.Precedes s := Nat.lt_irrefl _

theorem mem_front_iff {front back : List Setting} {s t : Setting}
    (h : all = front ++ s :: back) : t ∈ front ↔ t.Precedes s := by
  have hs : s ∉ front := by
    have hn := nodup_all
    rw [h, List.nodup_append] at hn
    exact fun hm => hn.2.2 s hm s (List.mem_cons_self ..) rfl
  unfold Precedes
  rw [h, List.idxOf_append_of_notMem hs, List.idxOf_cons_self, Nat.add_zero]
  constructor
  · intro ht
    rw [List.idxOf_append_of_mem ht]
    exact List.idxOf_lt_length_of_mem ht
  · intro hlt
    refine Classical.byContradiction fun ht => ?_
    rw [List.idxOf_append_of_notMem ht] at hlt
    omega

/-! ## Readings -/

theorem faultOf_eq_some_iff {α : Type} {r : Except SettingFault α} {fault : SettingFault} :
    faultOf r = some fault ↔ r = .error fault := by
  cases r <;> simp [faultOf]

theorem faultOf_eq_none_iff {α : Type} {r : Except SettingFault α} :
    faultOf r = none ↔ ∃ v, r = .ok v := by
  cases r <;> simp [faultOf]

theorem firstFault?_eq_some_iff {f : (s : Setting) → Except SettingFault s.Value} {s : Setting}
    {fault : SettingFault} :
    firstFault? f = some (s, fault) ↔
      f s = .error fault ∧ ∀ t : Setting, t.Precedes s → ∃ v, f t = .ok v := by
  unfold firstFault?
  rw [List.findSome?_eq_some_iff]
  constructor
  · rintro ⟨front, u, back, hall, hu, hfront⟩
    obtain ⟨e, he, hp⟩ := Option.map_eq_some_iff.mp hu
    obtain ⟨rfl, rfl⟩ := Prod.mk.inj hp
    refine ⟨faultOf_eq_some_iff.mp he, fun t ht => faultOf_eq_none_iff.mp ?_⟩
    exact Option.map_eq_none_iff.mp (hfront t ((mem_front_iff hall).mpr ht))
  · rintro ⟨hs, hbefore⟩
    obtain ⟨front, back, hall⟩ := List.append_of_mem (mem_all s)
    refine ⟨front, s, back, hall, by rw [hs]; rfl, fun t ht => ?_⟩
    rw [faultOf_eq_none_iff.mpr (hbefore t ((mem_front_iff hall).mp ht))]
    rfl

theorem collect_eq_error_iff {f : (s : Setting) → Except SettingFault s.Value} {e : Fault} :
    collect f = .error e ↔ ∃ (s : Setting) (fault : SettingFault), e = .setting s fault ∧
      f s = .error fault ∧ ∀ t : Setting, t.Precedes s → ∃ v, f t = .ok v := by
  simp only [← firstFault?_eq_some_iff]
  unfold collect
  split
  · rename_i s fault h
    rw [Except.error.injEq, h]
    constructor
    · rintro rfl
      exact ⟨s, fault, rfl, rfl⟩
    · rintro ⟨t, fault', rfl, he⟩
      obtain ⟨rfl, rfl⟩ := Prod.mk.inj (Option.some.inj he)
      rfl
  · rename_i h
    exact ⟨nofun, fun ⟨_, _, _, hs⟩ => nomatch h.symm.trans hs⟩

end Setting

/-! ## Descriptors -/

namespace Descriptor

variable {doc : Document} {base : Path} {check : PathCheck}

/-- A document is refused for a setting that cannot be read, where all before it can. -/
theorem ofDocument_eq_error_iff {e : Fault} :
    ofDocument doc base check = .error e ↔
      ∃ (s : Setting) (fault : SettingFault), e = .setting s fault ∧
        s.read doc base.normal check = .error fault ∧
        ∀ t : Setting, t.Precedes s → ∃ v, t.read doc base.normal check = .ok v := by
  rw [← Setting.collect_eq_error_iff, ofDocument]
  cases Setting.collect fun s => s.read doc base.normal check <;> simp [bind, Except.bind]

theorem exists_read_iff {s : Setting} :
    (∃ v, s.read doc base.normal check = .ok v) ↔
      s.kind.Accepts base.normal check (doc.setting? s.key) := Kind.exists_read_iff

/-- A document that is not refused up to a setting is accepted or refused for a later one. -/
theorem ok_or_later {s : Setting} (h : ∀ t : Setting, t.Precedes s ∨ t = s →
      ∃ v, t.read doc base.normal check = .ok v) :
    (∃ d, ofDocument doc base check = .ok d) ∨
      ∃ (t : Setting) (fault : SettingFault),
        ofDocument doc base check = .error (.setting t fault) ∧ s.Precedes t := by
  cases hr : ofDocument doc base check with
  | ok d => exact .inl ⟨d, rfl⟩
  | error e =>
    obtain ⟨t, fault, rfl, ht, -⟩ := ofDocument_eq_error_iff.mp hr
    refine .inr ⟨t, fault, rfl, ?_⟩
    rcases Setting.precedes_or_eq_or_precedes t s with hts | hts | hst
    · obtain ⟨v, hv⟩ := h t (.inl hts)
      rw [hv] at ht
      cases ht
    · obtain ⟨v, hv⟩ := h t (.inr hts)
      rw [hv] at ht
      cases ht
    · exact hst

/-- A document that is refused is refused for one setting: the rules of all settings declared before
it are kept and its own is not. No document with the same values up to that setting fares otherwise,
and with another value that keeps its rule a document is accepted or refused for a later setting. -/
theorem refused_for_first_fault {e : Fault} (h : ofDocument doc base check = .error e) :
    ∃ (s : Setting) (fault : SettingFault), e = .setting s fault ∧
      (∀ t : Setting, t.Precedes s →
        t.kind.Accepts base.normal check (doc.setting? t.key)) ∧
      ¬s.kind.Accepts base.normal check (doc.setting? s.key) ∧
      (∀ doc' : Document,
        (∀ t : Setting, t.Precedes s ∨ t = s → doc'.setting? t.key = doc.setting? t.key) →
        ofDocument doc' base check = .error e) ∧
      ∀ doc' : Document,
        (∀ t : Setting, t ≠ s → doc'.setting? t.key = doc.setting? t.key) →
        s.kind.Accepts base.normal check (doc'.setting? s.key) →
        (∃ d, ofDocument doc' base check = .ok d) ∨
          ∃ (t : Setting) (fault' : SettingFault),
            ofDocument doc' base check = .error (.setting t fault') ∧ s.Precedes t := by
  obtain ⟨s, fault, rfl, hs, hbefore⟩ := ofDocument_eq_error_iff.mp h
  refine ⟨s, fault, rfl, fun t ht => exists_read_iff.mp (hbefore t ht), ?_, ?_, ?_⟩
  · intro ha
    obtain ⟨v, hv⟩ := exists_read_iff.mpr ha
    rw [hs] at hv
    cases hv
  · intro doc' hsame
    refine ofDocument_eq_error_iff.mpr ⟨s, fault, rfl, ?_, fun t ht => ?_⟩
    · rw [Setting.read, hsame s (.inr rfl)]
      exact hs
    · rw [Setting.read, hsame t (.inl ht)]
      exact hbefore t ht
  · intro doc' hsame ha
    refine ok_or_later fun t ht => ?_
    rcases ht with ht | rfl
    · have hne : t ≠ s := fun he => Setting.not_precedes_self s (he ▸ ht)
      rw [Setting.read, hsame t hne]
      exact hbefore t ht
    · exact exists_read_iff.mpr ha

theorem ofDocument_ofValues_eq_error {values : List (Setting × Text)} {s : Setting}
    {fault : SettingFault}
    (h : Setting.firstFault? (fun t => t.kind.read base.normal check (Document.given values t)) =
      some (s, fault)) :
    ofDocument (Document.ofValues values) base check = .error (.setting s fault) := by
  rw [Setting.firstFault?_eq_some_iff] at h
  refine ofDocument_eq_error_iff.mpr ⟨s, fault, rfl, ?_⟩
  simpa only [Setting.read, Document.setting?_ofValues] using h

/-- Values with the given identifier, a name that is refused, and a file. -/
def valuesWithId (id : Text) : List (Setting × Text) :=
  [(.appBaseName, "App".toList), (.appFriendlyName, "App".toList), (.appId, id),
   (.appVersionRelease, "1.0".toList), (.appShortSummary, "An app".toList),
   (.appLicenseId, "MIT".toList), (.publisherName, "bad|name".toList),
   (.appLicenseFile, "LICENSE".toList)]

theorem refused_for_first_fault_valuesWithId :
    ofDocument (Document.ofValues (valuesWithId "has space".toList)) ⟨[]⟩ (.on fun _ => true) =
        .error (.setting .appId (.chars .blank)) ∧
      ((∃ d, ofDocument (Document.ofValues (valuesWithId "org.app".toList)) ⟨[]⟩
          (.on fun _ => true) = .ok d) ∨
        ∃ (t : Setting) (fault : SettingFault),
          ofDocument (Document.ofValues (valuesWithId "org.app".toList)) ⟨[]⟩ (.on fun _ => true) =
            .error (.setting t fault) ∧ Setting.appId.Precedes t) := by
  have h : ofDocument (Document.ofValues (valuesWithId "has space".toList)) ⟨[]⟩
      (.on fun _ => true) = .error (.setting .appId (.chars .blank)) :=
    ofDocument_ofValues_eq_error (by decide +kernel)
  refine ⟨h, ?_⟩
  obtain ⟨s, fault, he, -, -, -, hfixed⟩ := refused_for_first_fault h
  obtain ⟨rfl, rfl⟩ := Fault.setting.inj he
  refine hfixed _ (fun t ht => ?_) ?_
  · have hne : (Setting.appId == t) = false := beq_eq_false_iff_ne.mpr (Ne.symm ht)
    simp [Document.setting?_ofValues, Document.given, valuesWithId, List.find?_cons, hne]
  · exact exists_read_iff.mp ⟨"org.app".toList, by
      rw [Setting.read, Document.setting?_ofValues]; decide +kernel⟩

end Descriptor

end Packaging
