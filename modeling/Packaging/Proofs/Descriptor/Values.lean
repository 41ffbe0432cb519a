import Packaging.Proofs.Descriptor.Found
import Packaging.Proofs.Descriptor.Reading
import Packaging.Proofs.Descriptor.Seen

/-! Values of every kind but paths come back as they were. What reading guarantees of them is what
writing needs, but for free text: it may hold the mark of a block, which stands for more than itself
in a document. -/

namespace Packaging

open Text (Trimmed Paragraphs OwnLine)

namespace Written

/-- A mark takes three double quotes, and quoting adds two to a text that has none. -/
theorem not_mark_of_count {t : Text} (h : t.count '"' ≤ 2) : ¬Document.blockMark <:+: t := by
  intro hi
  have hle := hi.sublist.count_le '"'
  simp [Document.blockMark] at hle
  omega

theorem count_quoted_le {t : Text} (h : '"' ∉ t) : (quoted t).count '"' ≤ 2 := by
  have h0 := List.count_eq_zero.mpr h
  rcases quoted_cases t with ⟨q, q', r, -, -, -, -, he⟩ | ⟨he, -⟩
  · rw [he]
    simp only [List.cons_append, List.count_cons, List.count_append, List.count_nil, h0]
    split <;> omega
  · rw [he]
    omega

theorem clean_of_quoteless {w : Written} (ho : ∀ t ∈ w.texts, OwnLine t)
    (hq : ∀ t ∈ w.texts, '"' ∉ t) : w.Clean := by
  unfold Clean
  rcases w.laid_cases with hl | ⟨t, hl, ht⟩
  · rw [hl]
    exact fun t ht => ⟨ho t ht, not_mark_of_quoteless (hq t ht)⟩
  · have hown : OwnLine t ∧ '"' ∉ t := by
      rcases ht with ht | ⟨rfl, -⟩
      · simp_all
      · exact ⟨Text.ownLine_nil, nofun⟩
    rw [hl]
    exact ⟨hown.1, fun hp =>
      not_mark_of_count (count_quoted_le hown.2) (hp.isInfix.trans (Text.trim_infix _))⟩

end Written

namespace Kind

/-- The paths of a value. -/
def pathsOf : (k : Kind) → k.Value → List Path
  | .path, .resolved p => [p]
  | .directory _, p => [p]
  | .paths, ps => ps
  | _, _ => []

theorem agrees_refl (k : Kind) (v : k.Value) : k.agrees v v = true := by
  cases k with
  | path => cases v <;> exact beq_self_eq_true _
  | _ => exact beq_self_eq_true _

def HasPaths : Kind → Prop
  | .path => True
  | .directory _ => True
  | .paths => True
  | _ => False

/-- Free text does not open or close a block. -/
def Unmarked : (k : Kind) → k.Value → Prop
  | .required cls, v => cls = .free → ¬Document.blockMark <+: v
  | .optional cls, v => cls = .free → ∀ t, v = some t → ¬Document.blockMark <+: t
  | .defaulted cls _, v => cls = .free → ¬Document.blockMark <+: v
  | .paragraphs, ls => ∀ l ∈ ls, ¬Document.blockMark <:+: l
  | _, _ => True

/-- The default is a value that could have been read. -/
def DefaultValid : Kind → Prop
  | .defaulted cls value => IsLine cls value
  | .directory value => IsLine .safe value.text ∧ Path.IsNames value.text ∧
      Text.sameLetters value.text disabledWord = false
  | _ => True

theorem not_mark_of_isLine {cls : CharClass} {t : Text} (h : IsLine cls t)
    (hf : cls = .free → ¬Document.blockMark <+: t) : ¬Document.blockMark <+: t := by
  by_cases hc : cls = .free
  · exact hf hc
  · exact fun hp => not_mark_of_quoteless (CharClass.quoteless hc h.accepted) hp.isInfix

theorem clean_of_isLine {cls : CharClass} {t : Text} (h : IsLine cls t)
    (hf : cls = .free → ¬Document.blockMark <+: t) : (Written.line t).Clean :=
  Written.clean_line h.feedless h.trimmed (not_mark_of_isLine h hf)

theorem clean_nothing : (Written.line []).Clean :=
  Written.clean_line (by decide) Text.trimmed_nil (by decide)

theorem found?_of_isLine {cls : CharClass} {t : Text} (h : IsLine cls t) :
    (Written.line t).found? = some t :=
  Written.found?_of_ne_nil (Written.value_line_of_trimmed h.trimmed) h.trimmed h.ne_nil

/-- A list is read from what was found, or from nothing if nothing was. -/
theorem read_items_found (base : Path) (check : PathCheck) (rule : ItemRule) (w : Written) :
    (Kind.items rule).read base check w.found? = readItems rule (Text.trim w.value) := by
  unfold Written.found?
  rw [Option.filter_some]
  split
  · rfl
  · rename_i h
    have hn : Text.trim w.value = [] := by simpa using h
    rw [hn]
    rfl

theorem quoteless_of_isLine {t : Text} (h : IsLine .safe t) : ¬Document.blockMark <:+: t :=
  not_mark_of_quoteless (CharClass.quoteless (by decide) h.accepted)

theorem clean_flag (b : Bool) : (Written.line (Text.ofBool b)).Clean := by
  cases b with
  | false => exact Written.clean_line (by decide) (by decide) (by decide)
  | true => exact Written.clean_line (by decide) (by decide) (by decide)

theorem found?_flag (b : Bool) : (Written.line (Text.ofBool b)).found? = some (Text.ofBool b) := by
  cases b <;> decide

theorem readFlag_ofBool (b : Bool) : readFlag (Text.ofBool b) = .ok b := by
  cases b <;> rfl

theorem isLine_of_defaulted {base : Path} {cls : CharClass} {value v : Text}
    (hv : (Kind.defaulted cls value).Valid base v) (hd : IsLine cls value) : IsLine cls v := by
  rcases hv with hv | hv
  · have he : v = value := hv
    rwa [he]
  · exact hv

theorem clean_written {base : Path} {k : Kind} {v : k.Value} (hk : ¬k.HasPaths)
    (hv : k.Valid base v) (hu : k.Unmarked v) (hd : k.DefaultValid) : (k.written base v).Clean := by
  cases k with
  | required cls => exact clean_of_isLine hv hu
  | optional cls =>
    cases v with
    | none => exact clean_nothing
    | some t => exact clean_of_isLine (hv t rfl) fun hc => hu hc t rfl
  | defaulted cls value => exact clean_of_isLine (isLine_of_defaulted hv hd) hu
  | version => exact clean_of_isLine hv.1 nofun
  | flag value => exact clean_flag v
  | path => exact absurd trivial hk
  | directory value => exact absurd trivial hk
  | paths => exact absurd trivial hk
  | items rule =>
    exact Written.clean_list (fun i hi => (hv.lines i hi).feedless)
      (fun i hi => (hv.lines i hi).trimmed) fun i hi => quoteless_of_isLine (hv.lines i hi)
  | paragraphs => exact Written.clean_list hv.feedless hv.trimmed hu

theorem read_written {base : Path} {k : Kind} {v : k.Value} (hk : ¬k.HasPaths)
    (hv : k.Valid base v) (hd : k.DefaultValid) :
    k.read base .off (k.written base v).found? = .ok v := by
  cases k with
  | required cls =>
    unfold written
    rw [found?_of_isLine hv]
    exact readLine_of_isLine hv
  | optional cls =>
    cases v with
    | none => rfl
    | some t =>
      have ht := hv t rfl
      show read base .off (.optional cls) (Written.line t).found? = _
      rw [found?_of_isLine ht, read, readLine_of_isLine ht]
      rfl
  | defaulted cls value =>
    have hl := isLine_of_defaulted hv hd
    unfold written
    rw [found?_of_isLine hl]
    exact readLine_of_isLine hl
  | version =>
    unfold written
    rw [found?_of_isLine hv.1, read, readVersion, readLine_of_isLine hv.1]
    simp only [bind, Except.bind, hv.2]
  | flag value =>
    unfold written
    rw [found?_flag]
    exact readFlag_ofBool v
  | path => exact absurd trivial hk
  | directory value => exact absurd trivial hk
  | paths => exact absurd trivial hk
  | items rule =>
    have hi := Written.items_value_list (fun i hi => (hv.lines i hi).feedless)
      (fun i hi => (hv.lines i hi).trimmed) (fun i hi => (hv.lines i hi).ne_nil) hv.whole
    unfold written
    rw [read_items_found, readItems_of_items, hi]
    rw [hi]
    exact hv.each
  | paragraphs =>
    cases v with
    | nil => rfl
    | cons l ls =>
      obtain ⟨t, ht, hp⟩ := Written.found?_paragraphs hv
      unfold written
      rw [ht, read, hp]

/-! ## Defaults -/

end Kind

theorem Setting.default_valid (s : Setting) : s.kind.DefaultValid := by
  cases s <;> first
    | exact trivial
    | exact ⟨by decide, by decide, by decide, by decide⟩
    | exact ⟨⟨by decide, by decide, by decide, by decide⟩,
        ⟨["Deploy".toList, "OUT".toList], by decide, by decide, by decide⟩, by decide⟩

end Packaging
