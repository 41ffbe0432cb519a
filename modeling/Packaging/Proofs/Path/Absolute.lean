import Packaging.Proofs.Path.Spelled

/-! Absolute paths. Seen from an absolute directory every path is absolute, and so is its parent; a
path without a parent is a root and nothing else. From a directory that is a root and names, a
relative path is seen as the directory joined with it is. -/

namespace Packaging.Path

open Component (IsStep)

theorem head?_of_relative {p : Path} (h : p.isAbsolute = false) : p.text.head? ≠ some '/' :=
  fun hs => Bool.eq_false_iff.mp h (isAbsolute_iff.mpr hs)

/-- The components are joined to the path, one behind the other. -/
def joinAll (p : Path) (cs : List Component) : Path := cs.foldl (fun p c => p.join ⟨c.text⟩) p

theorem joinAll_append (p : Path) (cs ds : List Component) :
    joinAll p (cs ++ ds) = joinAll (joinAll p cs) ds := List.foldl_append

theorem isAbsolute_joinAll {p : Path} (h : p.isAbsolute = true) (cs : List Component) :
    (joinAll p cs).isAbsolute = true := by
  induction cs generalizing p with
  | nil => exact h
  | cons c cs ih => exact ih (isAbsolute_join _ h)

/-- A slash at the end of the one path is kept in the other. -/
def endedAs (t : Text) (q : Path) : Path := if t.getLast? = some '/' then q.join ⟨[]⟩ else q

theorem isAbsolute_endedAs (t : Text) {q : Path} (h : q.isAbsolute = true) :
    (endedAs t q).isAbsolute = true := by
  unfold endedAs
  split
  · exact isAbsolute_join _ h
  · exact h

/-! ## The absolute path -/

/-- The path starts with two slashes, and not with three. -/
def isDoubled (t : Text) : Bool := ['/', '/'].isPrefixOf t && !(['/', '/', '/'].isPrefixOf t)

theorem isDoubled_slash {t : Text} (h : t.head? ≠ some '/') : isDoubled ('/' :: t) = false := by
  cases t with
  | nil => rfl
  | cons c r =>
    have hc : ('/' == c) = false := beq_false_of_ne fun he => h (congrArg some he.symm)
    simp [isDoubled, List.isPrefixOf, hc]

theorem absolute_of_relative (cwd : Path) {p : Path} (h : p.isAbsolute = false) :
    absolute cwd p = endedAs p.text (joinAll cwd (steps p.text)) := by
  have hcs : (if p.components.head? = some .here then p.components.tail else p.components) =
      steps p.text := by
    rw [components_eq, start, if_neg (head?_of_relative h)]
    split
    · rfl
    · rw [if_neg]
      · rfl
      · intro hh
        have := isStep_of_mem_steps (List.mem_of_mem_head? hh)
        cases this
  unfold absolute
  simp only [hcs, h, Bool.not_false, if_true]
  rfl

theorem absolute_of_absolute (cwd : Path) {p : Path} (h : p.isAbsolute = true) :
    absolute cwd p = endedAs p.text
      (joinAll (if isDoubled p.text then ⟨['/', '/']⟩ else ⟨['/']⟩) (steps p.text)) := by
  unfold absolute
  rw [components_absolute h]
  simp only [h, List.head?_cons, Option.some.injEq, reduceCtorEq, if_false, Bool.not_true,
    Bool.false_eq_true, List.tail_cons]
  have hroot : ofComponents (.root :: steps p.text) = joinAll ⟨['/']⟩ (steps p.text) := rfl
  rw [hroot]
  change endedAs p.text (if isDoubled p.text = true then joinAll ⟨['/', '/']⟩ (steps p.text)
    else joinAll ⟨['/']⟩ (steps p.text)) = _
  split <;> rfl

/-- Whatever a path is written like, it is absolute when it is seen from an absolute directory. -/
theorem isAbsolute_absolute {cwd : Path} (h : cwd.isAbsolute = true) (p : Path) :
    (absolute cwd p).isAbsolute = true := by
  cases hp : p.isAbsolute with
  | false =>
    rw [absolute_of_relative cwd hp]
    exact isAbsolute_endedAs _ (isAbsolute_joinAll h _)
  | true =>
    rw [absolute_of_absolute cwd hp]
    refine isAbsolute_endedAs _ (isAbsolute_joinAll ?_ _)
    split <;> rfl

/-! ## Names from the root -/

/-- A root and the names behind it. -/
def ofNames (names : List Text) : Path := ofComponents (.root :: names.map .name)

section

variable {names : List Text} (hn : ∀ n ∈ names, IsStep (.name n))
include hn

theorem isStep_of_mem_names : ∀ c ∈ names.map Component.name, c.IsStep := by
  simpa using hn

theorem text_ofNames : (ofNames names).text = '/' :: List.intercalate ['/'] names := by
  rw [ofNames, text_ofComponents_root (isStep_of_mem_names hn), spelled, List.map_map]
  congr
  exact List.map_id _

theorem isAbsolute_ofNames : (ofNames names).isAbsolute = true := by
  rw [isAbsolute_iff, text_ofNames hn]
  rfl

theorem steps_ofNames : steps (ofNames names).text = names.map .name := by
  have hs := isStep_of_mem_names hn
  rw [ofNames, text_ofComponents_root hs, steps_slash, steps_spelled hs]

/-- A single slash is in front of names. -/
theorem isDoubled_join_ofNames {p : Path} (h : p.isAbsolute = false) :
    isDoubled ((ofNames names).join p).text = false := by
  have hs := isStep_of_mem_names hn
  by_cases hne : names = []
  · have hjoin : (ofNames names).join p = ⟨'/' :: p.text⟩ := by
      rw [hne, join, if_neg (Bool.eq_false_iff.mp h)]
      rfl
    rw [hjoin]
    exact isDoubled_slash (head?_of_relative h)
  · have hspelled := spelled_ne_nil hs (by simpa using hne)
    have hhead : ∀ t : Text, (spelled (names.map .name) ++ t).head? ≠ some '/' := fun t => by
      rw [List.head?_append_of_ne_nil _ hspelled]
      exact head?_of_relative (isAbsolute_spelled hs)
    have htext : (ofNames names).text = '/' :: spelled (names.map .name) :=
      text_ofComponents_root hs
    rcases text_join (p := ofNames names) h with ⟨ht, -⟩ | ⟨ht, -⟩ <;>
      rw [ht, htext, List.cons_append] <;> exact isDoubled_slash (hhead _)

/-- A relative path is seen from a directory as the directory joined with it. -/
theorem absolute_join_ofNames {p : Path} (h : p.isAbsolute = false) (hne : p.text ≠ [])
    (cwd : Path) : absolute cwd ((ofNames names).join p) = absolute (ofNames names) p := by
  have habs := isAbsolute_join p (isAbsolute_ofNames hn)
  have hlast : ((ofNames names).join p).text.getLast? = p.text.getLast? := by
    rcases text_join (p := ofNames names) h with ⟨ht, -⟩ | ⟨ht, -⟩
    · rw [ht, List.getLast?_append_of_ne_nil _ hne]
    · rw [ht, List.getLast?_append_of_ne_nil _ (List.cons_ne_nil _ _),
        List.getLast?_cons_of_ne_nil hne]
  rw [absolute_of_absolute _ habs, absolute_of_relative _ h, isDoubled_join_ofNames hn h,
    if_neg Bool.false_ne_true, steps_join h, steps_ofNames hn, joinAll_append, endedAs, endedAs,
    hlast]
  rfl

end

/-! ## Parents -/

theorem exists_slash {p : Path} (h : p.isAbsolute = true) : ∃ t, p = ⟨'/' :: t⟩ := by
  obtain ⟨t, ht⟩ := List.head?_eq_some_iff.mp (isAbsolute_iff.mp h)
  exact ⟨t, congrArg Path.mk ht⟩

/-- An absolute path has an absolute parent, or leads nowhere from the root. -/
theorem parent?_cases {p : Path} (h : p.isAbsolute = true) :
    (∃ q, p.parent? = some q ∧ q.isAbsolute = true) ∨
      p.parent? = none ∧ ∀ s ∈ segments p.text, isHole s = true := by
  obtain ⟨t, rfl⟩ := exists_slash h
  unfold parent?
  rw [parts_slash]
  cases hd : (segments t).reverse.dropWhile isHole with
  | nil =>
    right
    refine ⟨rfl, ?_⟩
    rw [segments_slash, List.forall_mem_cons]
    refine ⟨rfl, fun s hs => ?_⟩
    exact List.dropWhile_eq_nil_iff.mp hd s (List.mem_reverse.mpr hs)
  | cons s segs => exact .inl ⟨_, rfl, rfl⟩

end Packaging.Path
