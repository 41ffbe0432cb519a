import Mathlib.Data.List.Nodup
import Mathlib.Data.List.Perm.Basic
import Packaging.Template.Build

/-! Facts about a build, learned in any order. A fact overrides an earlier one of its topic and does
not touch those of others. So of many facts only the last of each topic count, and these may be
learned in any order; what the values of variables are is seen from them alone. -/

namespace Packaging.Template

/-- What a fact is about. -/
inductive Topic where
  | deployKind
  | runtime
  | target
  | version
  | date
  | directories
  | install
  | history
deriving DecidableEq

namespace Fact

def topic : Fact → Topic
  | .deployKind _ => .deployKind
  | .runtime _ _ => .runtime
  | .target _ => .target
  | .version _ _ => .version
  | .date _ => .date
  | .directories _ _ _ _ => .directories
  | .install _ _ => .install
  | .history _ => .history

def version? : Fact → Option Text
  | .version number _ => some number
  | _ => none

def date? : Fact → Option Calendar.Date
  | .date d => some d
  | _ => none

def history? : Fact → Option History
  | .history h => some h
  | _ => none

end Fact

/-! ## Two facts -/

namespace Build

variable {f g : Fact}

theorem learn_comm (b : Build) (h : f.topic ≠ g.topic) :
    (b.learn f).learn g = (b.learn g).learn f := by
  cases f <;> cases g <;> first | rfl | exact absurd rfl h

theorem learn_of_same_topic (b : Build) (h : f.topic = g.topic) :
    (b.learn f).learn g = b.learn g := by
  cases f <;> cases g <;> first | rfl | cases h

/-! ## Many facts -/

@[simp] theorem learnAll_nil (b : Build) : b.learnAll [] = b := rfl

@[simp] theorem learnAll_cons (b : Build) (f : Fact) (fs : List Fact) :
    b.learnAll (f :: fs) = (b.learn f).learnAll fs := rfl

/-- A fact makes no difference before another of its topic. -/
theorem learnAll_learn (b : Build) {fs : List Fact} (h : f.topic ∈ fs.map Fact.topic) :
    (b.learn f).learnAll fs = b.learnAll fs := by
  induction fs generalizing b with
  | nil => cases h
  | cons g fs ih =>
    by_cases hg : f.topic = g.topic
    · rw [learnAll_cons, learnAll_cons, learn_of_same_topic b hg]
    · have hfs : f.topic ∈ fs.map Fact.topic := List.mem_of_ne_of_mem hg h
      rw [learnAll_cons, learnAll_cons, learn_comm b hg, ih _ hfs]

/-- Facts of different topics may be learned in any order. -/
theorem learnAll_perm (b : Build) {fs gs : List Fact} (h : fs.Perm gs)
    (hd : (fs.map Fact.topic).Nodup) : b.learnAll fs = b.learnAll gs := by
  refine h.foldl_eq' (fun f hf g hg b => ?_) b
  by_cases heq : f = g
  · rw [heq]
  · exact learn_comm b fun ht => heq (List.inj_on_of_nodup_map hd hf hg ht)

end Build

/-! ## The last facts -/

/-- The last fact of each topic, and no other, in any order. -/
structure LastOfEach (facts order : List Fact) : Prop where
  nodup : (order.map Fact.topic).Nodup
  mem_iff (f : Fact) : f ∈ order ↔
    ∃ front back, facts = front ++ f :: back ∧ ∀ g ∈ back, g.topic ≠ f.topic

/-- The facts that none of their topic follows. -/
def lasts : List Fact → List Fact
  | [] => []
  | f :: fs => if f.topic ∈ fs.map Fact.topic then lasts fs else f :: lasts fs

theorem mem_lasts_iff {facts : List Fact} {f : Fact} : f ∈ lasts facts ↔
    ∃ front back, facts = front ++ f :: back ∧ ∀ g ∈ back, g.topic ≠ f.topic := by
  induction facts with
  | nil => simp [lasts]
  | cons e facts ih =>
    have hcons : (∃ front back, e :: facts = front ++ f :: back ∧ ∀ g ∈ back, g.topic ≠ f.topic) ↔
        (e = f ∧ ∀ g ∈ facts, g.topic ≠ f.topic) ∨ f ∈ lasts facts := by
      rw [ih]
      constructor
      · rintro ⟨front, back, h, hback⟩
        cases front with
        | nil =>
          obtain ⟨rfl, rfl⟩ := List.cons.inj h
          exact .inl ⟨rfl, hback⟩
        | cons d front =>
          obtain ⟨rfl, rfl⟩ := List.cons.inj h
          exact .inr ⟨front, back, rfl, hback⟩
      · rintro (⟨rfl, hback⟩ | ⟨front, back, rfl, hback⟩)
        · exact ⟨[], facts, rfl, hback⟩
        · exact ⟨e :: front, back, rfl, hback⟩
    have hnone : e.topic ∉ facts.map Fact.topic ↔ ∀ g ∈ facts, g.topic ≠ e.topic := by
      simp
    rw [hcons, lasts]
    split
    · rename_i he
      refine ⟨.inr, fun h => h.resolve_left ?_⟩
      rintro ⟨rfl, hn⟩
      exact hnone.mpr hn he
    · rename_i he
      rw [List.mem_cons]
      constructor
      · rintro (rfl | h)
        · exact .inl ⟨rfl, hnone.mp he⟩
        · exact .inr h
      · rintro (⟨rfl, -⟩ | h)
        · exact .inl rfl
        · exact .inr h

theorem mem_of_mem_lasts {facts : List Fact} {f : Fact} (h : f ∈ lasts facts) : f ∈ facts := by
  obtain ⟨front, back, rfl, -⟩ := mem_lasts_iff.mp h
  simp

theorem nodup_lasts (facts : List Fact) : ((lasts facts).map Fact.topic).Nodup := by
  induction facts with
  | nil => exact .nil
  | cons f facts ih =>
    rw [lasts]
    split
    · exact ih
    · rename_i hf
      rw [List.map_cons, List.nodup_cons]
      refine ⟨fun hm => hf ?_, ih⟩
      obtain ⟨g, hg, ht⟩ := List.mem_map.mp hm
      exact List.mem_map.mpr ⟨g, mem_of_mem_lasts hg, ht⟩

theorem lastOfEach_of_perm {facts order : List Fact} (h : (lasts facts).Perm order) :
    LastOfEach facts order :=
  ⟨(h.map _).nodup_iff.mp (nodup_lasts facts), fun f => by rw [← h.mem_iff, mem_lasts_iff]⟩

theorem LastOfEach.perm {facts order : List Fact} (h : LastOfEach facts order) :
    (lasts facts).Perm order :=
  (List.perm_ext_iff_of_nodup (nodup_lasts facts).of_map h.nodup.of_map).mpr fun f => by
    rw [mem_lasts_iff, h.mem_iff]

namespace Build

theorem learnAll_lasts (b : Build) (facts : List Fact) :
    b.learnAll (lasts facts) = b.learnAll facts := by
  induction facts generalizing b with
  | nil => rfl
  | cons f facts ih =>
    rw [lasts]
    split
    · rename_i hf
      rw [ih, learnAll_cons, learnAll_learn b hf]
    · rw [learnAll_cons, learnAll_cons, ih]

theorem learnAll_lastOfEach (b : Build) {facts order : List Fact} (h : LastOfEach facts order) :
    b.learnAll facts = b.learnAll order := by
  rw [← learnAll_lasts, learnAll_perm b h.perm (nodup_lasts facts)]

/-! ## What a build knows in the end -/

/-- What single facts tell is told in the end by the last of them. -/
theorem learnAll_eq_getLast? {α : Type} {know : Build → α} {told? : Fact → Option α}
    (h : ∀ b f, know (learn b f) = (told? f).getD (know b)) (b : Build) (facts : List Fact) :
    know (b.learnAll facts) = (facts.filterMap told?).getLast?.getD (know b) := by
  induction facts generalizing b with
  | nil => rfl
  | cons f facts ih =>
    rw [learnAll_cons, ih, h]
    cases hf : told? f with
    | none => simp [hf]
    | some a => simp [hf, List.getLast?_cons]

theorem version_learnAll (b : Build) (facts : List Fact) :
    (b.learnAll facts).version = (facts.filterMap Fact.version?).getLast?.getD b.version :=
  learnAll_eq_getLast? (fun _ f => by cases f <;> rfl) b facts

theorem date_learnAll (b : Build) (facts : List Fact) :
    (b.learnAll facts).date = (facts.filterMap Fact.date?).getLast?.getD b.date :=
  learnAll_eq_getLast? (fun _ f => by cases f <;> rfl) b facts

theorem history_learnAll (b : Build) {facts : List Fact} {h : History}
    (hl : (facts.filterMap Fact.history?).getLast? = some h) :
    (b.learnAll facts).history = some h := by
  have htold : (b.learnAll facts).history =
      (facts.filterMap fun f => f.history?.map some).getLast?.getD b.history :=
    learnAll_eq_getLast? (fun _ f => by cases f <;> rfl) b facts
  rw [htold, ← List.map_filterMap, List.getLast?_map, hl]
  rfl

/-- The release that stands for a history without records is the one that is built. -/
theorem historyMarkup_learnAll (b : Build) {facts : List Fact} {h : History}
    (hl : (facts.filterMap Fact.history?).getLast? = some h) (he : h.records = []) :
    (b.learnAll facts).historyMarkup =
      "<release version=\"".toList ++
        Markup.escape ((facts.filterMap Fact.version?).getLast?.getD b.version) ++
        "\" date=\"".toList ++ ((facts.filterMap Fact.date?).getLast?.getD b.date).text ++
        "\"/>".toList := by
  rw [historyMarkup, history_learnAll b hl, ← version_learnAll, ← date_learnAll]
  simp only [he, List.isEmpty_nil, if_pos]

end Build

/-- The values that variables have after any facts are those after the last facts of each topic, in
whatever order. In particular, when the last history is without records, the release that stands for
it has the last version and the last date, whether these come before it or behind. -/
theorem values_of_last_facts (d : Descriptor) (b : Build) {facts order : List Fact}
    (h : LastOfEach facts order) :
    Values.ofBuild d (b.learnAll facts) = Values.ofBuild d (b.learnAll order) ∧
    ∀ log : History, (facts.filterMap Fact.history?).getLast? = some log → log.records = [] →
      Values.ofBuild d (b.learnAll facts) .historyMarkup =
        "<release version=\"".toList ++
          Markup.escape ((facts.filterMap Fact.version?).getLast?.getD b.version) ++
          "\" date=\"".toList ++ ((facts.filterMap Fact.date?).getLast?.getD b.date).text ++
          "\"/>".toList := by
  exact ⟨by rw [b.learnAll_lastOfEach h], fun _ hl he => b.historyMarkup_learnAll hl he⟩

/-- A history without records, before the version and the date that count. -/
def repeatedFacts : List Fact :=
  [.version "1.0".toList "1".toList, .history ⟨[.change "Fixed".toList]⟩, .history ⟨[]⟩,
    .date ⟨2024, 2, 29, rfl⟩, .runtime "linux-x64".toList "x86_64".toList,
    .version "9.9".toList "2".toList, .date ⟨2025, 1, 31, rfl⟩]

/-- Those that count, from the last to the first. -/
def countingFacts : List Fact :=
  [.date ⟨2025, 1, 31, rfl⟩, .version "9.9".toList "2".toList,
    .runtime "linux-x64".toList "x86_64".toList, .history ⟨[]⟩]

theorem values_of_last_facts_repeatedFacts :
    LastOfEach repeatedFacts countingFacts ∧ ∀ (d : Descriptor) (b : Build),
      Values.ofBuild d (b.learnAll repeatedFacts) = Values.ofBuild d (b.learnAll countingFacts) ∧
      Values.ofBuild d (b.learnAll repeatedFacts) .historyMarkup =
        "<release version=\"9.9\" date=\"2025-01-31\"/>".toList := by
  have h : LastOfEach repeatedFacts countingFacts :=
    lastOfEach_of_perm (List.reverse_perm (lasts repeatedFacts)).symm
  have hversion : (repeatedFacts.filterMap Fact.version?).getLast? = some "9.9".toList := rfl
  have hdate : (repeatedFacts.filterMap Fact.date?).getLast? = some ⟨2025, 1, 31, rfl⟩ := rfl
  refine ⟨h, fun d b => ?_⟩
  obtain ⟨hvalues, hrelease⟩ := values_of_last_facts d b h
  refine ⟨hvalues, (hrelease ⟨[]⟩ rfl rfl).trans ?_⟩
  rw [hversion, hdate, Option.getD_some, Option.getD_some]
  decide +kernel

end Packaging.Template
