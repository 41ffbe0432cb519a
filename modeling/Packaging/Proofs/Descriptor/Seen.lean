import Packaging.Descriptor.Write
import Packaging.Proofs.Path.Spelled
import Packaging.Proofs.Text.Trim

/-! Paths on their way through a document. A path is written as it is seen from the base and found
from there again, so it comes back if what is seen of it is spelled out, or is the path itself. -/

namespace Packaging

open Kind (resolve)
open Text (Trimmed)

namespace Path

/-! ## Resolving -/

theorem resolve_absolute {base : Path} {t : Text} (h : isAbsolute ⟨t⟩ = true) :
    resolve base t = ⟨t⟩ := by
  unfold resolve
  rw [if_pos h]

theorem resolve_relative {base : Path} {t : Text} (h : isAbsolute ⟨t⟩ = false) :
    resolve base t = (base.join ⟨t⟩).normal := by
  unfold resolve
  rw [if_neg (Bool.eq_false_iff.mp h)]

theorem mem_resolve {base : Path} {t : Text} {c : Char} (h : c ∈ (resolve base t).text) :
    c ∈ base.text ∨ c ∈ t ∨ c = '/' := by
  cases ha : isAbsolute ⟨t⟩ with
  | true =>
    rw [resolve_absolute ha] at h
    exact .inr (.inl h)
  | false =>
    rw [resolve_relative ha] at h
    rcases mem_normal h with h | h
    · exact mem_join h
    · exact .inr (.inr h)

/-! ## What is seen -/

theorem mem_seenFrom {base p : Path} {c : Char} (h : c ∈ seenFrom base p) :
    c ∈ p.text ∨ c = '/' := by
  unfold seenFrom at h
  cases hr : p.relativeTo? base with
  | none =>
    rw [hr] at h
    exact .inl h
  | some q =>
    rw [hr] at h
    exact mem_relativeTo? hr h

theorem seenFrom_outside {base p : Path} (hb : base.components ≠ [])
    (h : ¬base.components <+: p.components) : seenFrom base p = p.text := by
  unfold seenFrom
  rw [(relativeTo?_eq_none_iff hb).mpr h]
  rfl

theorem seenFrom_below {base p : Path} (hb : base.components ≠ [])
    (h : base.components <+: p.components) :
    start (seenFrom base p) = none ∧ isAbsolute ⟨seenFrom base p⟩ = false ∧
      p.components = base.components ++ steps (seenFrom base p) := by
  cases hr : p.relativeTo? base with
  | none => exact absurd h ((relativeTo?_eq_none_iff hb).mp hr)
  | some q =>
    obtain ⟨hc, hs, ha, -⟩ := relativeTo?_spec hb hr
    unfold seenFrom
    rw [hr]
    refine ⟨hs, ha, ?_⟩
    rw [hc, components_of_start hs]
    rfl

theorem seenFrom_nowhere {base : Path} {t : Text} (hb : base.components = [])
    (h : isAbsolute ⟨t⟩ = true) :
    isAbsolute ⟨seenFrom base ⟨t⟩⟩ = true ∧
      components ⟨seenFrom base ⟨t⟩⟩ = components ⟨t⟩ := by
  obtain ⟨r, rfl⟩ : ∃ r, t = '/' :: r := List.head?_eq_some_iff.mp (isAbsolute_iff.mp h)
  have hseen : seenFrom base ⟨'/' :: r⟩ =
      '/' :: List.intercalate ['/'] (dropLastHoles (segments r)) := by
    unfold seenFrom
    rw [relativeTo?, hb, parts_slash]
    rfl
  have hslash : ∀ s ∈ dropLastHoles (segments r), '/' ∉ s := fun s hs =>
    not_mem_of_mem_segments ((dropLastHoles_isPrefix _).subset hs)
  refine ⟨by rw [hseen]; rfl, ?_⟩
  rw [components_absolute (by rw [hseen]; rfl), components_absolute h, hseen, steps_slash,
    steps_slash, steps_intercalate hslash, filterMap_dropLastHoles, steps]

/-! ## Names below the base -/

/-- What a relative path is put behind does not depend on it. -/
theorem exists_join_eq (p : Path) :
    ∃ a, ∀ q, isAbsolute ⟨q⟩ = false → p.join ⟨q⟩ = ⟨a ++ q⟩ := by
  by_cases hc : (p.text.isEmpty || p.text.getLast? == some '/') = true
  · exact ⟨p.text, fun q hq => by rw [join, if_neg (Bool.eq_false_iff.mp hq), if_pos hc]⟩
  · refine ⟨p.text ++ ['/'], fun q hq => ?_⟩
    unfold join
    rw [if_neg (Bool.eq_false_iff.mp hq), if_neg hc, List.append_assoc]
    rfl

/-- Joining a path that goes on with a step joins the step behind it. -/
theorem join_append {p : Path} {q : Text} {c : Component} (hc : c.IsStep) (hne : q ≠ [])
    (ha : isAbsolute ⟨q⟩ = false) (hl : q.getLast? ≠ some '/') :
    p.join ⟨q ++ '/' :: c.text⟩ = (p.join ⟨q⟩).join ⟨c.text⟩ := by
  have ha' : isAbsolute ⟨q ++ '/' :: c.text⟩ = false := by
    rw [← ha]
    obtain ⟨d, r, rfl⟩ := List.exists_cons_of_ne_nil hne
    rfl
  obtain ⟨a, hjoin⟩ := p.exists_join_eq
  have hlast : (a ++ q).getLast? ≠ some '/' := by
    rwa [List.getLast?_append_of_ne_nil _ hne]
  have htext := text_join_text (p := ⟨a ++ q⟩) hc (by simp [hne]) hlast
  rw [hjoin _ ha', hjoin _ ha, ← List.append_assoc]
  exact (congrArg Path.mk htext).symm

theorem join_spelled {cs ns : List Component} (h : ∀ c ∈ ns, c.IsStep) (hne : ns ≠ []) :
    (ofComponents cs).join ⟨spelled ns⟩ = ofComponents (cs ++ ns) := by
  induction ns using List.reverseRecOn with
  | nil => exact absurd rfl hne
  | append_singleton ns n ih =>
    have hn : n.IsStep := h n (by simp)
    have hns : ∀ c ∈ ns, c.IsStep := fun c hc => h c (List.mem_append_left _ hc)
    by_cases he : ns = []
    · rw [he, List.nil_append, spelled_singleton, ofComponents_concat]
    · rw [spelled_concat he, join_append hn (spelled_ne_nil hns he) (isAbsolute_spelled hns)
        (getLast?_spelled hns), ih hns he, ← ofComponents_concat, List.append_assoc]

theorem foldl_push_names {ns : List Component} (h : ∀ c ∈ ns, ∃ n, c = .name n)
    (st : List Component) : ns.foldl push st = ns.reverse ++ st := by
  induction ns generalizing st with
  | nil => rfl
  | cons c ns ih =>
    obtain ⟨n, rfl⟩ := h c (List.mem_cons_self ..)
    rw [List.foldl_cons, push_name, ih fun d hd => h d (List.mem_cons_of_mem _ hd)]
    simp

/-- Names below a normal path are on its stack. -/
theorem Stack.append_names {st ns : List Component} (hst : Stack st)
    (h : ∀ c ∈ ns, c.IsStep ∧ ∃ n, c = .name n) : Stack (ns.reverse ++ st) := by
  rw [← foldl_push_names fun c hc => (h c hc).2]
  exact hst.foldl fun c hc => (h c hc).1

/-- The path comes back from what is seen of it. -/
structure Returns (base p : Path) : Prop where
  trimmed : Trimmed (seenFrom base p)
  ne_nil : seenFrom base p ≠ []
  leads : (resolve base (seenFrom base p)).components = p.components

/-- The text is names between slashes, none of which leads nowhere or back. -/
def IsNames (t : Text) : Prop :=
  ∃ ns : List Text, ns ≠ [] ∧ (∀ n ∈ ns, n ≠ [] ∧ n ≠ ['.'] ∧ n ≠ ['.', '.'] ∧ '/' ∉ n) ∧
    t = List.intercalate ['/'] ns

theorem isNames_iff {t : Text} :
    IsNames t ↔ ∀ s ∈ segments t, s ≠ [] ∧ s ≠ ['.'] ∧ s ≠ ['.', '.'] := by
  constructor
  · rintro ⟨ns, hne, hns, rfl⟩ s hs
    rw [segments_intercalate (fun n hn => (hns n hn).2.2.2) hne] at hs
    exact ⟨(hns s hs).1, (hns s hs).2.1, (hns s hs).2.2.1⟩
  · intro h
    refine ⟨segments t, segments_ne_nil t, ?_, (intercalate_segments t).symm⟩
    exact fun s hs => ⟨(h s hs).1, (h s hs).2.1, (h s hs).2.2, not_mem_of_mem_segments hs⟩

theorem IsNames.exists_spelled {t : Text} (h : IsNames t) :
    ∃ cs, cs ≠ [] ∧ (∀ c ∈ cs, c.IsStep ∧ ∃ n, c = .name n) ∧ t = spelled cs := by
  obtain ⟨ns, hne, hns, rfl⟩ := h
  refine ⟨ns.map .name, by simpa using hne, ?_, ?_⟩
  · intro c hc
    obtain ⟨n, hn, rfl⟩ := List.mem_map.mp hc
    obtain ⟨h1, h2, h3, h4⟩ := hns n hn
    exact ⟨.name h1 h2 h3 h4, n, rfl⟩
  · unfold spelled
    rw [List.map_map]
    exact (congrArg _ (List.map_id ns)).symm

instance : DecidablePred IsNames := fun _ => decidable_of_iff _ isNames_iff.symm

/-- Names below the base are seen as they are spelled, and found again. -/
theorem returns_of_names {base p : Path} {ns : List Component} (hbase : base.normal = base)
    (h : ∀ c ∈ ns, c.IsStep ∧ ∃ n, c = .name n) (hne : ns ≠ []) (ht : Trimmed (spelled ns))
    (hp : p = base.join ⟨spelled ns⟩ ∨ p = resolve base (spelled ns)) :
    seenFrom base p = spelled ns ∧ Returns base p := by
  have hst := stack_stack base
  have hb : base = ofComponents (stack base).reverse := by
    rw [← normal_eq, hbase]
  have hsteps : ∀ c ∈ ns, c.IsStep := fun c hc => (h c hc).1
  have hcomp : base.components = (stack base).reverse := by
    rw [← components_normal, hbase]
  have hjoin : base.join ⟨spelled ns⟩ = ofComponents ((stack base).reverse ++ ns) := by
    conv => lhs; rw [hb]
    exact join_spelled hsteps hne
  have hrev : (stack base).reverse ++ ns = (ns.reverse ++ stack base).reverse := by simp
  have hstack := hst.append_names h
  have hres : resolve base (spelled ns) = ofComponents ((stack base).reverse ++ ns) := by
    rw [resolve_relative (isAbsolute_spelled hsteps), hjoin, normal_eq, stack, hrev,
      hstack.components, hstack.foldl_reverse]
  have hpe : p = ofComponents ((stack base).reverse ++ ns) := by
    rcases hp with rfl | rfl
    · exact hjoin
    · exact hres
  have hseen : seenFrom base p = spelled ns := by
    unfold seenFrom
    rw [hpe, relativeTo?_ofComponents hst hcomp hsteps hne]
    rfl
  refine ⟨hseen, ?_, ?_, ?_⟩
  · rwa [hseen]
  · rw [hseen]
    exact spelled_ne_nil hsteps hne
  · rw [hseen, hres, hpe]

/-- What is not below the base is seen as it is. -/
theorem returns_outside {base : Path} {t : Text} (hb : base.components ≠ [])
    (h : ¬base.components <+: components ⟨t⟩) (ha : isAbsolute ⟨t⟩ = true) (ht : Trimmed t)
    (hne : t ≠ []) : seenFrom base ⟨t⟩ = t ∧ Returns base ⟨t⟩ := by
  have hseen : seenFrom base ⟨t⟩ = t := seenFrom_outside hb h
  refine ⟨hseen, ?_, ?_, ?_⟩
  · rwa [hseen]
  · rwa [hseen]
  · rw [hseen, resolve_absolute ha]

theorem returns_nowhere {base : Path} {t : Text} (hb : base.components = [])
    (ha : isAbsolute ⟨t⟩ = true) (ht : Trimmed (seenFrom base ⟨t⟩)) : Returns base ⟨t⟩ := by
  obtain ⟨hs, hc⟩ := seenFrom_nowhere hb ha
  refine ⟨ht, ?_, ?_⟩
  · intro he
    rw [he] at hs
    cases hs
  · rw [resolve_absolute hs, hc]

end Path

end Packaging
