import Packaging.Descriptor.Read
import Packaging.Proofs.Path.Normal

/-! Normal paths as canonical forms. A normal path is a root where the path has one, steps back, and
names. It leads from everywhere where the path leads, and no two normal paths of relative ones lead
to the same places. Joining to a path or to its normal form gives the same normal path, so a base
directory can be normalized before anything is resolved from it. -/

namespace Packaging

open Component (IsStep)

/-- Where a component leads from a place, which is given by the names that lead there from the root.
Nothing is above the root. -/
def Component.leads (place : List Text) : Component → List Text
  | .root => []
  | .here => place
  | .up => place.dropLast
  | .name n => place ++ [n]

namespace Path

/-- Where the components of a path lead from a place, one after the other. -/
def leads (p : Path) (place : List Text) : List Text := p.components.foldl Component.leads place

/-! ## The same places -/

/-- A component leads on from where a stack leads, whether it is laid on top or takes the top off. -/
theorem foldl_leads_push (st : List Component) (c : Component) (place : List Text) :
    (push st c).reverse.foldl Component.leads place =
      Component.leads (st.reverse.foldl Component.leads place) c := by
  rw [push.eq_def]
  split
  · rfl
  · rw [List.reverse_cons, List.foldl_append]
    exact List.dropLast_concat.symm
  · rw [List.reverse_cons, List.foldl_append]
    rfl

theorem foldl_leads_foldl_push (cs st : List Component) (place : List Text) :
    (cs.foldl push st).reverse.foldl Component.leads place =
      cs.foldl Component.leads (st.reverse.foldl Component.leads place) := by
  induction cs generalizing st with
  | nil => rfl
  | cons c cs ih => rw [List.foldl_cons, ih, foldl_leads_push, List.foldl_cons]

theorem leads_normal (p : Path) (place : List Text) : p.normal.leads place = p.leads place := by
  rw [leads, components_normal, stack, foldl_leads_foldl_push]
  rfl

/-! ## One form for the places -/

theorem exists_names_normal (p : Path) :
    ∃ (n : Nat) (names : List Text), (∀ m ∈ names, IsStep (.name m)) ∧ p.normal.components =
      (if p.isAbsolute then [.root] else []) ++ List.replicate n .up ++ names.map .name := by
  obtain ⟨n, names, he⟩ := exists_components_normal p
  refine ⟨n, names, fun m hm => ?_, he⟩
  have hmem : Component.name m ∈ p.normal.components := by
    rw [he]
    exact List.mem_append_right _ (List.mem_map_of_mem hm)
  rw [components_eq] at hmem
  rcases List.mem_append.mp hmem with hstart | hstep
  · unfold start at hstart
    split at hstart
    · cases List.mem_singleton.mp hstart
    · split at hstart <;> simp at hstart
  · exact isStep_of_mem_steps hstep

theorem foldl_leads_replicate (n : Nat) (place : List Text) :
    (List.replicate n Component.up).foldl Component.leads place =
      place.take (place.length - n) := by
  induction n generalizing place with
  | zero => exact List.take_length.symm
  | succ n ih =>
    rw [List.replicate_succ, List.foldl_cons, ih, Component.leads, List.dropLast_eq_take,
      List.take_take, List.length_take]
    congr 1
    omega

theorem foldl_leads_names (names place : List Text) :
    (names.map Component.name).foldl Component.leads place = place ++ names := by
  induction names generalizing place with
  | nil => exact (List.append_nil place).symm
  | cons m names ih =>
    rw [List.map_cons, List.foldl_cons, ih, Component.leads, List.append_assoc]
    rfl

/-- A relative path leads a number of steps back and then down along names. -/
theorem exists_leads_relative {p : Path} (h : p.isAbsolute = false) :
    ∃ (n : Nat) (names : List Text),
      p.normal.components = List.replicate n .up ++ names.map .name ∧
      ∀ place, p.leads place = place.take (place.length - n) ++ names := by
  obtain ⟨n, names, -, he⟩ := exists_names_normal p
  rw [h, if_neg Bool.false_ne_true, List.nil_append] at he
  refine ⟨n, names, he, fun place => ?_⟩
  rw [← leads_normal, leads, he, List.foldl_append, foldl_leads_replicate, foldl_leads_names]

theorem normal_eq_of_components {p q : Path} (h : p.normal.components = q.normal.components) :
    p.normal = q.normal := by
  rw [components_normal, components_normal] at h
  rw [normal_eq, h, ← normal_eq]

theorem normal_eq_of_leads {p q : Path} (hp : p.isAbsolute = false) (hq : q.isAbsolute = false)
    (h : ∀ place, p.leads place = q.leads place) : p.normal = q.normal := by
  obtain ⟨n, names, hpn, hpl⟩ := exists_leads_relative hp
  obtain ⟨n', names', hqn, hql⟩ := exists_leads_relative hq
  -- The names are seen from the root, and the steps back from a place that is deep enough.
  have hroot := h []
  have hdeep := congrArg List.length (h (List.replicate (n + n') []))
  rw [hpl, hql, List.take_nil, List.take_nil, List.nil_append, List.nil_append] at hroot
  subst hroot
  rw [hpl, hql, List.length_append, List.length_append, List.length_take, List.length_take,
    List.length_replicate] at hdeep
  obtain rfl : n = n' := by omega
  exact normal_eq_of_components (hpn.trans hqn.symm)

/-! ## Joining -/

theorem normal_join (p q : Path) : (p.normal.join q).normal = (p.join q).normal := by
  cases h : q.isAbsolute with
  | true => rw [join_absolute h, join_absolute h]
  | false => rw [normal_eq, stack_join h, stack_normal, ← stack_join h, ← normal_eq]

theorem resolve_normal (base : Path) (t : Text) :
    Kind.resolve base.normal t = Kind.resolve base t := by
  unfold Kind.resolve
  rw [normal_join]

/-- A normal path is a root if the path has one, steps back and then names, and it is its own normal
form. It leads where the path leads, and relative paths have the same one exactly if they lead to
the same places. Whether it or the path is joined to, the normal path is the same, and so is
whatever is resolved from it. -/
theorem normal_is_canonical (p : Path) :
    (∃ (n : Nat) (names : List Text), (∀ m ∈ names, IsStep (.name m)) ∧ p.normal.components =
      (if p.isAbsolute then [.root] else []) ++ List.replicate n .up ++ names.map .name) ∧
    p.normal.normal = p.normal ∧
    (∀ place, p.normal.leads place = p.leads place) ∧
    (∀ q : Path, p.isAbsolute = false → q.isAbsolute = false →
      (p.normal = q.normal ↔ ∀ place, p.leads place = q.leads place)) ∧
    (∀ q, (p.join q).normal = (p.normal.join q).normal) ∧
    ∀ t, Kind.resolve p.normal t = Kind.resolve p t := by
  refine ⟨exists_names_normal p, normal_normal p, leads_normal p, fun q hp hq => ⟨?_, ?_⟩,
    fun q => (normal_join p q).symm, resolve_normal p⟩
  · intro he place
    rw [← leads_normal, he, leads_normal]
  · exact normal_eq_of_leads hp hq

def detour : Path := ⟨"./a/../../b//".toList⟩

theorem normal_is_canonical_detour :
    detour.isAbsolute = false ∧ isAbsolute ⟨"../b/c/..".toList⟩ = false ∧
    (detour.normal = normal ⟨"../b/c/..".toList⟩ ↔
      ∀ place, detour.leads place = leads ⟨"../b/c/..".toList⟩ place) ∧
    detour.normal = normal ⟨"../b/c/..".toList⟩ ∧
    (detour.join ⟨"../x".toList⟩).normal = (detour.normal.join ⟨"../x".toList⟩).normal := by
  have hp : detour.isAbsolute = false := rfl
  have hq : isAbsolute ⟨"../b/c/..".toList⟩ = false := rfl
  obtain ⟨-, -, -, hleads, hjoin, -⟩ := normal_is_canonical detour
  exact ⟨hp, hq, hleads _ hp hq, by decide, hjoin _⟩

/-- A step back from the root leads nowhere, but it is kept. -/
example : normal ⟨"/..".toList⟩ ≠ normal ⟨"/".toList⟩ ∧
    ∀ place, leads ⟨"/..".toList⟩ place = leads ⟨"/".toList⟩ place :=
  ⟨by decide, fun _ => rfl⟩

end Path

end Packaging
