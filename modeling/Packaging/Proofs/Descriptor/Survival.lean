import Packaging.Proofs.Descriptor.Loss
import Packaging.Proofs.Descriptor.RoundTrip

/-! Which paths survive. Seen from an absolute base whose text is safe every path can be written and
read again, and whether it comes back is told by what is seen of it. -/

namespace Packaging

open Kind (resolve)
open Packaging.Path (seenFrom Returns)
open Text (Trimmed weight)

/-! ## Steps and slashes -/

theorem Path.slash_of_steps {t : Text} (h : 2 ≤ (Path.steps t).length) : '/' ∈ t := by
  refine Classical.byContradiction fun hn => ?_
  have hl := List.length_filterMap_le Component.ofSegment? (Path.segments t)
  rw [Path.segments_of_not_mem hn, List.length_singleton] at hl
  unfold Path.steps at h
  rw [Path.segments_of_not_mem hn] at h
  omega

theorem Path.two_steps {cs : List Component} (h : ∀ c ∈ cs, c.IsStep)
    (hs : '/' ∈ Path.spelled cs) : 2 ≤ cs.length := by
  match cs with
  | [] => exact absurd hs List.not_mem_nil
  | [c] =>
    rw [Path.spelled_singleton] at hs
    exact absurd hs (h c (List.mem_singleton.mpr rfl)).not_mem_text
  | _ :: _ :: _ => simp

/-! ## One path -/

namespace Kind

/-- The default lies in a directory of its own, so no single word is taken for it. -/
def DefaultDeep : Kind → Prop
  | .directory value => '/' ∈ value.text
  | _ => True

/-- A path that agrees with a default below the base is seen with a slash in it, so it is not
taken for anything that would be read as the default. -/
theorem slash_of_default {base p value : Path} (hb : base.components ≠ [])
    (hv : (Kind.directory value).DefaultValid) (hd : (Kind.directory value).DefaultDeep)
    (h : p.components = (base.join value).components) : '/' ∈ seenFrom base p := by
  obtain ⟨t⟩ := value
  obtain ⟨cs, -, hcs, rfl⟩ := hv.2.1.exists_spelled
  have hsteps : ∀ c ∈ cs, c.IsStep := fun c hc => (hcs c hc).1
  have hjoin : (base.join ⟨Path.spelled cs⟩).components = base.components ++ cs := by
    rw [Path.components_join (Path.isAbsolute_spelled hsteps) (Path.start_spelled hsteps),
      Path.components_of_start (p := ⟨Path.spelled cs⟩) (Path.start_spelled hsteps),
      Path.steps_spelled hsteps]
  rw [hjoin] at h
  obtain ⟨-, -, hc⟩ := Path.seenFrom_below hb ⟨cs, h.symm⟩
  rw [hc] at h
  refine Path.slash_of_steps ?_
  rw [List.append_cancel_left h]
  exact Path.two_steps hsteps hd

/-- A text with a slash in it is found, and does not rule a path out. -/
theorem found?_of_slash {t : Text} (h : '/' ∈ t) :
    ∃ r, (Written.line t).found? = some r ∧ Text.sameLetters r disabledWord = false := by
  have hm : '/' ∈ Text.trim (Written.line t).value :=
    Text.mem_trim (by decide) (mem_value_line (by decide) (by decide) h)
  refine ⟨Text.trim (Written.line t).value, ?_, ?_⟩
  · unfold Written.found?
    rw [Option.filter_some, if_pos]
    rw [Bool.not_eq_true', List.isEmpty_eq_false_iff]
    exact List.ne_nil_of_mem hm
  · rw [Bool.eq_false_iff, ne_eq]
    exact fun hd => slashless_of_disabled hd hm

/-- What a path setting is read as from the line of a path. -/
theorem read_path_line {base p : Path} (hs : Hazardless (seenFrom base p)) :
    Kind.path.read base .off (Written.line (seenFrom base p)).found? =
      .ok (match (Written.line (seenFrom base p)).found? with
        | none => .unset
        | some r =>
          if Text.sameLetters r disabledWord then .disabled else .resolved (resolve base r)) := by
  cases hr : (Written.line (seenFrom base p)).found? with
  | none => rfl
  | some r => exact readPath_off (isLine_of_found? hs hr).1

theorem faithful_of_path {base : Path} {v w : PathValue} (hb : base.components ≠ [])
    (habs : ∀ p ∈ Kind.path.pathsOf v, p.isAbsolute = true)
    (hs : ∀ p ∈ Kind.path.pathsOf v, Hazardless (seenFrom base p))
    (hr : Kind.path.read base .off (Kind.path.written base v).found? = .ok w)
    (ha : Kind.path.agrees v w = true) : Kind.path.Faithful base v := by
  cases v with
  | unset => exact nofun
  | disabled => exact nofun
  | resolved p =>
    have hsp := hs p (List.mem_singleton.mpr rfl)
    have hw := Except.ok.inj (hr.symm.trans (read_path_line hsp))
    intro q hq
    obtain rfl := PathValue.resolved.inj hq
    cases hf : (Written.line (seenFrom base p)).found? with
    | none =>
      rw [hf] at hw
      rw [hw] at ha
      cases ha
    | some r =>
      rw [hf] at hw
      by_cases hd : Text.sameLetters r disabledWord = true
      · simp only [hd, if_true] at hw
        rw [hw] at ha
        cases ha
      · simp only [hd] at hw
        rw [hw] at ha
        obtain ⟨he, hret⟩ := returns_of_found hb (habs p (List.mem_singleton.mpr rfl)) hf hsp
          (beq_iff_eq.mp ha)
        rw [← he]
        exact ⟨hret, Bool.eq_false_iff.mpr hd⟩

theorem faithful_of_directory {base value p q : Path} (hb : base.components ≠ [])
    (hv : (Kind.directory value).DefaultValid) (hd : (Kind.directory value).DefaultDeep)
    (habs : p.isAbsolute = true) (hs : Hazardless (seenFrom base p))
    (hr : (Kind.directory value).read base .off
      ((Kind.directory value).written base p).found? = .ok q)
    (ha : (Kind.directory value).agrees p q = true) : (Kind.directory value).Faithful base p := by
  have ha : p.components = q.components := beq_iff_eq.mp ha
  change (Kind.directory value).read base .off (Written.line (seenFrom base p)).found? = _ at hr
  cases hf : (Written.line (seenFrom base p)).found? with
  | none =>
    rw [hf] at hr
    cases hr
    obtain ⟨r, hr, -⟩ := found?_of_slash (slash_of_default hb hv hd ha)
    rw [hf] at hr
    cases hr
  | some r =>
    rw [hf, read, readPath_off (isLine_of_found? hs hf).1] at hr
    by_cases hw : Text.sameLetters r disabledWord = true
    · rw [if_pos hw] at hr
      cases hr
      obtain ⟨r', hr', hn⟩ := found?_of_slash (slash_of_default hb hv hd ha)
      rw [hf] at hr'
      rw [Option.some.inj hr', hn] at hw
      cases hw
    · rw [if_neg hw] at hr
      cases hr
      obtain ⟨he, hret⟩ := returns_of_found hb habs hf hs ha
      rw [Faithful, ← he]
      exact ⟨hret, Bool.eq_false_iff.mpr hw⟩

end Kind

/-! ## Lists -/

/-- The items that are found where a list was written. -/
def foundItems (ts : List Text) : List Text := Text.items (Text.trim (Written.list ts).value)

/-- A list goes on one line or into a block, and a single item into a block only if it holds a
semicolon. -/
theorem list_cases (ts : List Text) :
    (∃ t, ts = [t] ∧ ';' ∉ t) ∨ ts = [] ∨
      (Written.list ts).value = Written.blockValue ts ∧ ts ≠ [] ∧ ∀ t, ts = [t] → ';' ∈ t := by
  cases ts with
  | nil => exact .inr (.inl rfl)
  | cons t us =>
    cases us with
    | nil =>
      by_cases hs : ';' ∈ t
      · refine .inr (.inr ⟨?_, List.cons_ne_nil t [], ?_⟩)
        · unfold Written.value
          rw [Written.laid, if_pos (List.contains_iff_mem.mpr hs)]
        · intro u hu
          rwa [← (List.cons.inj hu).1]
      · exact .inl ⟨t, rfl, hs⟩
    | cons u us =>
      refine .inr (.inr ⟨rfl, List.cons_ne_nil _ _, ?_⟩)
      intro v hv
      cases hv

/-- What is found in a block is made of what was written in it. -/
theorem mem_of_mem_blockItems {ts : List Text} (hn : ∀ t ∈ ts, '\n' ∉ t) {i : Text}
    (hi : i ∈ Text.items (Written.blockValue ts)) {c : Char} (hc : c ∈ i) : ∃ t ∈ ts, c ∈ t := by
  have hkept : ∀ {u : Text}, u ∈ ts.flatMap Text.kept → c ∈ u → ∃ t ∈ ts, c ∈ t := by
    intro u hu hcu
    obtain ⟨t, ht, hk⟩ := List.mem_flatMap.mp hu
    rw [(Text.mem_kept hk).1] at hcu
    exact ⟨t, ht, Text.mem_of_mem_trim hcu⟩
  rcases Written.items_blockValue hn with he | ⟨hk, he⟩
  · rw [he] at hi
    exact hkept hi hc
  · obtain ⟨_, w, hw, rfl, -⟩ := Text.exists_of_mem_items hi
    have hv : c ∈ Written.blockValue ts := Text.mem_of_mem_cutAt hw (Text.mem_of_mem_trim hc)
    have hne : Written.blockValue ts ≠ [] := List.ne_nil_of_mem hv
    rw [Text.kept_of_trimmed (Written.trimmed_blockValue ts) hne] at hk
    exact hkept (by rw [hk]; exact List.mem_singleton.mpr rfl) hv

theorem hazardless_foundItems {ts : List Text} (h : ∀ t ∈ ts, Hazardless t) :
    ∀ i ∈ foundItems ts, Hazardless i := by
  intro i hi c hc
  rcases list_cases ts with ⟨t, rfl, hs⟩ | rfl | ⟨hv, -, -⟩
  · unfold foundItems at hi
    rw [Written.value_list_singleton hs] at hi
    obtain ⟨_, w, hw, rfl, -⟩ := Text.exists_of_mem_items hi
    have hm := Text.mem_of_mem_trim (Text.mem_of_mem_cutAt hw (Text.mem_of_mem_trim hc))
    exact h t (List.mem_singleton.mpr rfl) c (mem_of_mem_value_line hm)
  · cases hi
  · unfold foundItems at hi
    rw [hv, (Written.trimmed_blockValue ts).trim_eq] at hi
    obtain ⟨t, ht, hm⟩ := mem_of_mem_blockItems (fun t ht => (h t ht).not_mem rfl) hi hc
    exact h t ht c hm

theorem foundItems_line {t : Text} (hn : '\n' ∉ t) (hs : ';' ∉ t) :
    foundItems [t] = Text.kept (Written.line t).value := by
  have hm : ∀ c ∈ Text.trim (Written.line t).value, c ∈ t := fun c hc =>
    mem_of_mem_value_line (Text.mem_of_mem_trim hc)
  unfold foundItems
  rw [Written.value_list_singleton hs, Written.items_of_plain (fun hc => hn (hm _ hc))
    (fun hc => hs (hm _ hc)), Text.kept_trim]

theorem trimmed_of_line {b : Nat} {t : Text} (hn : '\n' ∉ t) (hs : ';' ∉ t)
    (hlen : (foundItems [t]).length = 1) (hcost : costs b [t] ≤ costs b (foundItems [t])) :
    Trimmed t ∧ t ≠ [] := by
  rw [foundItems_line hn hs, Text.kept] at hlen hcost
  by_cases hnil : Text.trim (Written.line t).value = []
  · rw [if_pos hnil] at hlen
    cases hlen
  · rw [if_neg hnil] at hcost
    have ht : Trimmed t := Classical.byContradiction fun ht => by
      have := cost_found_lt b ht
      rw [costs_cons, costs_cons] at hcost
      omega
    rw [Written.value_line_of_trimmed ht, ht.trim_eq] at hnil
    exact ⟨ht, hnil⟩

theorem foundItems_block {ts : List Text} (hv : (Written.list ts).value = Written.blockValue ts) :
    foundItems ts = Text.items (Written.blockValue ts) := by
  unfold foundItems
  rw [hv, (Written.trimmed_blockValue ts).trim_eq]

/-- The items of a block that was cut at its semicolons cost too much, unless there was none. -/
theorem items_cut_of_costs {b : Nat} {ts : List Text} (hne : ts ≠ [])
    (hk : ts.flatMap Text.kept = Text.kept (Written.blockValue ts))
    (hlen : (Text.itemsAt ';' (Written.blockValue ts)).length = ts.length)
    (hcost : costs b ts ≤ costs b (Text.itemsAt ';' (Written.blockValue ts))) :
    ∃ t, ts = [t] ∧ Text.itemsAt ';' (Written.blockValue ts) = [Text.trim t] := by
  have hvne : Written.blockValue ts ≠ [] := by
    intro hnil
    rw [hnil, Text.itemsAt_nil] at hlen
    exact hne (List.eq_nil_of_length_eq_zero hlen.symm)
  have hkept := Text.kept_of_trimmed (Written.trimmed_blockValue ts) hvne
  rw [hkept] at hk
  have hsingle := le_costs_single b hk
  have hcut : ';' ∉ Written.blockValue ts := fun hm => by
    have := costs_cut_lt b hm
    rw [hlen] at this
    omega
  rw [Text.itemsAt_of_not_mem hcut, hkept] at hlen ⊢
  obtain ⟨t, rfl⟩ := List.length_eq_one_iff.mp hlen.symm
  refine ⟨t, rfl, ?_⟩
  rw [List.flatMap_singleton] at hk
  have hm : Written.blockValue [t] ∈ Text.kept t := by
    rw [hk]
    exact List.mem_singleton.mpr rfl
  rw [(Text.mem_kept hm).1]

theorem trimmed_of_block {b : Nat} {ts : List Text} (hn : ∀ t ∈ ts, '\n' ∉ t) (hne : ts ≠ [])
    (hsemi : ∀ t, ts = [t] → ';' ∈ t)
    (hlen : (Text.items (Written.blockValue ts)).length = ts.length)
    (hcost : costs b ts ≤ costs b (Text.items (Written.blockValue ts))) :
    (∀ t ∈ ts, Trimmed t ∧ t ≠ []) ∧ ∀ t, ts ≠ [t] := by
  -- a single item holds a semicolon, and is cut there or is in a block with others
  have hwhole : ∀ t, ts = [t] → Text.items (Written.blockValue ts) ≠ [Text.trim t] := by
    intro t ht he
    exact Text.not_mem_of_items_singleton (Written.trimmed_blockValue ts) he
      (Text.mem_trim rfl (hsemi t ht))
  rcases Written.items_blockValue hn with he | ⟨hk, he⟩
  · rw [he] at hlen hcost hwhole
    obtain ⟨hmap, hnil⟩ := flatMap_kept_of_length hlen
    rw [hmap] at hcost hwhole
    have ht := trimmed_of_costs hcost
    refine ⟨fun t hm => ⟨ht t hm, ?_⟩, ?_⟩
    · rw [← (ht t hm).trim_eq]
      exact hnil t hm
    · intro t he
      exact hwhole t he (by rw [he]; rfl)
  · rw [he] at hlen hcost hwhole
    obtain ⟨t, ht, hcut⟩ := items_cut_of_costs hne hk hlen hcost
    exact absurd hcut (hwhole t ht)

/-- As many items as were written, for no less than they cost, are the items that were written. -/
theorem foundItems_of_costs {b : Nat} {ts : List Text} (hs : ∀ t ∈ ts, Hazardless t)
    (hlen : (foundItems ts).length = ts.length) (hcost : costs b ts ≤ costs b (foundItems ts)) :
    (∀ t ∈ ts, Trimmed t ∧ t ≠ []) ∧ ∀ t, ts = [t] → ';' ∉ t := by
  have hn : ∀ t ∈ ts, '\n' ∉ t := fun t ht => (hs t ht).not_mem rfl
  rcases list_cases ts with ⟨t, rfl, hsemi⟩ | rfl | ⟨hv, hne, hsemi⟩
  · have ht := trimmed_of_line (hn t (List.mem_singleton.mpr rfl)) hsemi hlen hcost
    refine ⟨fun u hu => by rwa [List.mem_singleton.mp hu], fun u hu => ?_⟩
    rwa [← (List.cons.inj hu).1]
  · refine ⟨List.forall_mem_nil _, ?_⟩
    intro t ht
    cases ht
  · rw [foundItems_block hv] at hlen hcost
    obtain ⟨ht, hsingle⟩ := trimmed_of_block hn hne hsemi hlen hcost
    exact ⟨ht, fun t he => absurd he (hsingle t)⟩

theorem hazardless_map {base : Path} {ps : List Path}
    (h : ∀ p ∈ ps, Hazardless (seenFrom base p)) : ∀ t ∈ ps.map (seenFrom base), Hazardless t := by
  intro t ht
  obtain ⟨p, hp, rfl⟩ := List.mem_map.mp ht
  exact h p hp

theorem costs_seenFrom {base : Path} {ps : List Path} (hb : base.components ≠ [])
    (h : ∀ p ∈ ps, p.isAbsolute = true) :
    costs (weight base.text) (ps.map (seenFrom base)) = Text.weights (ps.map Path.text) := by
  induction ps with
  | nil => rfl
  | cons p ps ih =>
    rw [List.map_cons, List.map_cons, costs_cons, Text.weights_cons,
      weight_seenFrom hb (h p (List.mem_cons_self ..)),
      ih fun q hq => h q (List.mem_cons_of_mem _ hq)]

theorem weights_resolve_le (base : Path) (ts : List Text) :
    Text.weights (ts.map fun t => (resolve base t).text) ≤ costs (weight base.text) ts := by
  induction ts with
  | nil => exact Nat.le_refl _
  | cons t ts ih => exact Nat.add_le_add (weight_resolve_le base t) ih

theorem Kind.faithful_of_paths {base : Path} {ps qs : List Path} (hb : base.components ≠ [])
    (habs : ∀ p ∈ ps, p.isAbsolute = true) (hs : ∀ p ∈ ps, Hazardless (seenFrom base p))
    (hq : qs = (foundItems (ps.map (seenFrom base))).map (resolve base))
    (ha : ps.map Path.components = qs.map Path.components) : Kind.paths.Faithful base ps := by
  have hsafe := hazardless_map hs
  have hlen : (foundItems (ps.map (seenFrom base))).length = (ps.map (seenFrom base)).length := by
    have := congrArg List.length ha
    rw [List.length_map, List.length_map, hq, List.length_map] at this
    rw [List.length_map, this]
  have hcost : costs (weight base.text) (ps.map (seenFrom base)) ≤
      costs (weight base.text) (foundItems (ps.map (seenFrom base))) := by
    rw [costs_seenFrom hb habs, Path.weights_of_components ha, hq, List.map_map]
    exact weights_resolve_le base _
  obtain ⟨htrim, hwhole⟩ := foundItems_of_costs hsafe hlen hcost
  have hfound : foundItems (ps.map (seenFrom base)) = ps.map (seenFrom base) :=
    Written.items_value_list (fun t ht => (hsafe t ht).not_mem rfl)
      (fun t ht => (htrim t ht).1) (fun t ht => (htrim t ht).2) hwhole
  rw [hq, hfound, List.map_map, List.map_map, List.map_inj_left] at ha
  refine ⟨fun p hp => ?_, ?_⟩
  · obtain ⟨ht, hne⟩ := htrim _ (List.mem_map_of_mem hp)
    exact ⟨ht, hne, (ha p hp).symm⟩
  · rintro p rfl
    exact hwhole _ rfl

/-! ## Every value -/

namespace Kind

theorem exists_read {base : Path} {k : Kind} {v : k.Value} (hk : k.HasPaths)
    (hs : ∀ p ∈ k.pathsOf v, Hazardless (seenFrom base p)) :
    ∃ w, k.read base .off (k.written base v).found? = .ok w := by
  cases k with
  | path =>
    cases v with
    | resolved p => exact ⟨_, read_path_line (hs p (List.mem_singleton.mpr rfl))⟩
    | unset => exact ⟨.unset, rfl⟩
    | disabled =>
      have hd : Kind.path.Faithful base .disabled := nofun
      obtain ⟨w, hw, -⟩ := read_faithful hk hs hd
      exact ⟨w, hw⟩
  | directory value =>
    have hsv := hs v (List.mem_singleton.mpr rfl)
    show ∃ w, (Kind.directory value).read base .off (Written.line (seenFrom base v)).found? = .ok w
    cases hf : (Written.line (seenFrom base v)).found? with
    | none => exact ⟨_, rfl⟩
    | some r =>
      rw [read, readPath_off (isLine_of_found? hsv hf).1]
      exact ⟨_, rfl⟩
  | paths =>
    exact ⟨_, read_paths_found fun i hi => CharClass.fault?_safe_eq_none_iff.mpr
      (hazardless_foundItems (hazardless_map hs) i hi)⟩
  | _ => cases hk

theorem agrees_iff_faithful {base : Path} {k : Kind} {v w : k.Value} (hb : base.components ≠ [])
    (hk : k.HasPaths) (hv : k.DefaultValid) (hd : k.DefaultDeep)
    (habs : ∀ p ∈ k.pathsOf v, p.isAbsolute = true)
    (hs : ∀ p ∈ k.pathsOf v, Hazardless (seenFrom base p))
    (hr : k.read base .off (k.written base v).found? = .ok w) :
    k.agrees v w = true ↔ k.Faithful base v := by
  constructor
  · intro ha
    cases k with
    | path => exact faithful_of_path hb habs hs hr ha
    | directory value =>
      exact faithful_of_directory hb hv hd (habs v (List.mem_singleton.mpr rfl))
        (hs v (List.mem_singleton.mpr rfl)) hr ha
    | paths =>
      refine faithful_of_paths hb habs hs (Except.ok.inj (hr.symm.trans (read_paths_found ?_)))
        (beq_iff_eq.mp ha)
      exact fun i hi => CharClass.fault?_safe_eq_none_iff.mpr
        (hazardless_foundItems (hazardless_map hs) i hi)
    | _ => cases hk
  · intro hf
    obtain ⟨u, hu, ha⟩ := read_faithful hk hs hf
    rwa [Except.ok.inj (hr.symm.trans hu)]

end Kind

end Packaging
