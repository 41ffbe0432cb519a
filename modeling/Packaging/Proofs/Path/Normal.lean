import Packaging.Proofs.Path.Components

/-! Normal forms. The stack that a path is normalized on holds a root at most at its bottom, steps
back only where there is nothing to step back from, and names on top. Such a stack, spelled out, has
just these components and is pushed again without a change; so a normal path is normal for good, and
joining to it only pushes the steps of the joined path. -/

namespace Packaging.Path

open Component (IsStep)

/-- A stack that nothing can be taken from. Its top comes first. -/
inductive Stack : List Component → Prop
  | nil : Stack []
  | root : Stack [.root]
  | up {st : List Component} : Stack st → (∀ n r, st ≠ .name n :: r) → Stack (.up :: st)
  | name {n : Text} {st : List Component} : Stack st → IsStep (.name n) → Stack (.name n :: st)

/-- The stack that a path is normalized on. -/
def stack (p : Path) : List Component := p.components.foldl push []

theorem normal_eq (p : Path) : p.normal = ofComponents (stack p).reverse := rfl

theorem push_up {st : List Component} (h : ∀ n r, st ≠ .name n :: r) :
    push st .up = .up :: st := by
  rw [push.eq_def]
  split
  · rename_i he; cases he
  · rename_i n r _; exact absurd rfl (h n r)
  · rfl

theorem push_name (st : List Component) (n : Text) : push st (.name n) = .name n :: st := by
  rw [push.eq_def]

theorem Stack.push {st : List Component} (h : Stack st) {c : Component} (hc : c.IsStep) :
    Stack (push st c) := by
  cases hc with
  | name h1 h2 h3 h4 =>
    rw [push_name]
    exact .name h (.name h1 h2 h3 h4)
  | up =>
    cases h with
    | nil => exact .up .nil nofun
    | root => exact .up .root nofun
    | @up st hs hn =>
      have hp : ∀ n r, Component.up :: st ≠ .name n :: r := nofun
      rw [push_up hp]
      exact .up (.up hs hn) hp
    | name hs _ => exact hs

theorem Stack.foldl {st cs : List Component} (h : Stack st) (hc : ∀ c ∈ cs, c.IsStep) :
    Stack (cs.foldl Path.push st) := by
  induction cs generalizing st with
  | nil => exact h
  | cons c cs ih =>
    exact ih (h.push (hc c (List.mem_cons_self ..))) fun d hd => hc d (List.mem_cons_of_mem _ hd)

/-- A dot at the start counts for nothing, a root is the bottom. -/
theorem stack_eq (p : Path) :
    stack p = (steps p.text).foldl push (if p.isAbsolute then [.root] else []) := by
  unfold stack
  rw [components_eq, List.foldl_append, start]
  by_cases h : p.text.head? = some '/'
  · rw [if_pos h, if_pos (isAbsolute_iff.mpr h)]
    rfl
  · rw [if_neg h, if_neg (fun ha => h (isAbsolute_iff.mp ha))]
    split <;> rfl

theorem stack_stack (p : Path) : Stack (stack p) := by
  rw [stack_eq]
  refine Stack.foldl ?_ fun c hc => isStep_of_mem_steps hc
  split
  · exact .root
  · exact .nil

/-- Pushing what is on a stack, from the bottom, gives the stack again. -/
theorem Stack.foldl_reverse {st : List Component} (h : Stack st) :
    st.reverse.foldl Path.push [] = st := by
  induction h with
  | nil => rfl
  | root => rfl
  | up _ hn ih => rw [List.reverse_cons, List.foldl_append, ih]; exact push_up hn
  | name _ _ ih => rw [List.reverse_cons, List.foldl_append, ih]; exact push_name _ _

theorem Stack.components {st : List Component} (h : Stack st) :
    (ofComponents st.reverse).components = st.reverse := by
  induction h with
  | nil => rfl
  | root => rfl
  | up _ _ ih => rw [List.reverse_cons, components_concat _ .up, ih]
  | name _ hn ih => rw [List.reverse_cons, components_concat _ hn, ih]

theorem components_normal (p : Path) : p.normal.components = (stack p).reverse :=
  (stack_stack p).components

theorem stack_normal (p : Path) : stack p.normal = stack p := by
  rw [stack, components_normal, (stack_stack p).foldl_reverse]

theorem normal_normal (p : Path) : p.normal.normal = p.normal := by
  rw [normal_eq, stack_normal, ← normal_eq]

/-- Only the first component of a normal path can be other than a step. -/
theorem Stack.exists_steps {st : List Component} (h : Stack st) :
    ∃ cs, (∀ c ∈ cs, c.IsStep) ∧ (st.reverse = cs ∨ st.reverse = .root :: cs) := by
  induction h with
  | nil => exact ⟨[], nofun, .inl rfl⟩
  | root => exact ⟨[], nofun, .inr rfl⟩
  | @up st _ _ ih =>
    obtain ⟨cs, hcs, he⟩ := ih
    refine ⟨cs ++ [.up], ?_, ?_⟩
    · intro c hc
      rcases List.mem_append.mp hc with hc | hc
      · exact hcs c hc
      · rw [List.mem_singleton.mp hc]; exact .up
    · rcases he with he | he <;> simp [he]
  | @name n st _ hn ih =>
    obtain ⟨cs, hcs, he⟩ := ih
    refine ⟨cs ++ [.name n], ?_, ?_⟩
    · intro c hc
      rcases List.mem_append.mp hc with hc | hc
      · exact hcs c hc
      · rw [List.mem_singleton.mp hc]; exact hn
    · rcases he with he | he <;> simp [he]

/-- From its bottom a stack holds a root or nothing, then steps back, then names. -/
theorem Stack.exists_form {st : List Component} (h : Stack st) :
    ∃ (lead : List Component) (n : Nat) (names : List Text),
      (lead = [] ∨ lead = [.root]) ∧
        st.reverse = lead ++ List.replicate n .up ++ names.map .name := by
  induction h with
  | nil => exact ⟨[], 0, [], .inl rfl, rfl⟩
  | root => exact ⟨[.root], 0, [], .inr rfl, rfl⟩
  | @up st _ htop ih =>
    obtain ⟨lead, n, names, hlead, he⟩ := ih
    rcases List.eq_nil_or_concat names with rfl | ⟨names, m, rfl⟩
    · refine ⟨lead, n + 1, [], hlead, ?_⟩
      rw [List.reverse_cons, he, List.replicate_succ']
      simp
    · have hst := congrArg List.reverse he
      rw [List.reverse_reverse, List.concat_eq_append, List.map_append, ← List.append_assoc,
        List.reverse_append] at hst
      exact absurd hst (htop m _)
  | @name m st _ _ ih =>
    obtain ⟨lead, n, names, hlead, he⟩ := ih
    refine ⟨lead, n, names ++ [m], hlead, ?_⟩
    rw [List.reverse_cons, he]
    simp

/-- Steps neither lay a root at the bottom of a stack nor take it away. -/
theorem last_push (st : List Component) {c : Component} (h : c.IsStep) :
    (push st c).getLast? = some .root ↔ st.getLast? = some .root := by
  have hcons : ∀ {d : Component} (r : List Component), d.IsStep →
      ((d :: r).getLast? = some .root ↔ r.getLast? = some .root) := by
    intro d r hd
    cases r with
    | nil => cases hd <;> simp
    | cons e r => rw [List.getLast?_cons_cons]
  cases h with
  | name h1 h2 h3 h4 =>
    rw [push_name]
    exact hcons st (.name h1 h2 h3 h4)
  | up =>
    rw [push.eq_def]
    split
    · rename_i he; cases he
    · rename_i n r _
      cases r with
      | nil => simp
      | cons e r => rw [List.getLast?_cons_cons]
    · exact hcons _ .up

theorem isAbsolute_normal (p : Path) : p.normal.isAbsolute = p.isAbsolute := by
  have hfold : ∀ (cs st : List Component), (∀ c ∈ cs, c.IsStep) →
      ((cs.foldl push st).getLast? = some .root ↔ st.getLast? = some .root) := by
    intro cs
    induction cs with
    | nil => exact fun _ _ => Iff.rfl
    | cons c cs ih =>
      intro st hcs
      rw [List.foldl_cons, ih _ fun d hd => hcs d (List.mem_cons_of_mem _ hd)]
      exact last_push st (hcs c (List.mem_cons_self ..))
  rw [Bool.eq_iff_iff, isAbsolute_iff_head, components_normal, List.head?_reverse, stack_eq,
    hfold _ _ fun c hc => isStep_of_mem_steps hc]
  cases p.isAbsolute <;> simp

/-- A normal path: its root if it has one, steps back, and names. -/
theorem exists_components_normal (p : Path) :
    ∃ (n : Nat) (names : List Text), p.normal.components =
      (if p.isAbsolute then [.root] else []) ++ List.replicate n .up ++ names.map .name := by
  obtain ⟨lead, n, names, hlead, he⟩ := (stack_stack p).exists_form
  refine ⟨n, names, ?_⟩
  have habs := isAbsolute_iff_head (p := p.normal)
  rw [isAbsolute_normal, components_normal, he] at habs
  rw [components_normal, he]
  rcases hlead with rfl | rfl
  · rw [if_neg]
    rw [habs]
    cases n with
    | zero => cases names <;> simp
    | succ n => simp [List.replicate_succ]
  · rw [if_pos (habs.mpr rfl)]

/-- Joining a relative path pushes its steps. -/
theorem stack_join {p q : Path} (h : q.isAbsolute = false) :
    stack (p.join q) = (steps q.text).foldl push (stack p) := by
  have ha : p.text ≠ [] → (p.join q).isAbsolute = p.isAbsolute := by
    intro hne
    obtain ⟨c, r, hc⟩ := List.exists_cons_of_ne_nil hne
    rw [Bool.eq_iff_iff, isAbsolute_iff, isAbsolute_iff]
    rcases text_join (p := p) h with ⟨ht, -⟩ | ⟨ht, -⟩ <;> rw [ht, hc] <;> rfl
  rw [stack_eq, stack_eq p, steps_join h, List.foldl_append]
  by_cases hne : p.text = []
  · have hj : (p.join q).isAbsolute = false := by
      rw [Bool.eq_false_iff, ne_eq, isAbsolute_iff]
      rcases text_join (p := p) h with ⟨ht, -⟩ | ⟨-, ht⟩
      · rw [ht, hne, List.nil_append, ← isAbsolute_iff]
        exact Bool.eq_false_iff.mp h
      · exact absurd hne ht
    have hp : p.isAbsolute = false := by rw [isAbsolute, hne]; rfl
    rw [hj, hp]
  · rw [ha hne]

end Packaging.Path
