import Packaging.Markup.Escape

/-! Escaped text as markup reads it. Nothing in it begins or ends a tag or a quoted value, each of
its ampersands begins an entity, and with the entities read it is the text again. -/

namespace Packaging.Markup

/-- Every entity with the character it stands for. -/
def entities : List (Text × Char) :=
  [("&amp;".toList, '&'), ("&lt;".toList, '<'), ("&gt;".toList, '>'), ("&quot;".toList, '"'),
    ("&apos;".toList, '\'')]

/-- A character as it is written in markup: as the entity that stands for it, or as itself. -/
def encoded (c : Char) : Text :=
  match entities.find? (·.2 == c) with
  | some e => e.1
  | none => [c]

/-- The characters around tags and around the values in them. -/
def isDelimiter (c : Char) : Bool := ['<', '>', '"', '\''].contains c

/-- Reads the entities. What is not one of them stays as it is. -/
def unescape : Text → Text
  | [] => []
  | '&' :: 'a' :: 'm' :: 'p' :: ';' :: r => '&' :: unescape r
  | '&' :: 'l' :: 't' :: ';' :: r => '<' :: unescape r
  | '&' :: 'g' :: 't' :: ';' :: r => '>' :: unescape r
  | '&' :: 'q' :: 'u' :: 'o' :: 't' :: ';' :: r => '"' :: unescape r
  | '&' :: 'a' :: 'p' :: 'o' :: 's' :: ';' :: r => '\'' :: unescape r
  | c :: r => c :: unescape r

/-- The text delimits nothing in markup, and is read there as `value`. -/
structure Inert (value t : Text) : Prop where
  undelimited : ∀ c ∈ t, isDelimiter c = false
  ampersand : ∀ a b, t = a ++ '&' :: b → ∃ e ∈ entities, e.1 <+: '&' :: b
  reads : unescape t = value

theorem unescape_cons {c : Char} (h : c ≠ '&') (r : Text) :
    unescape (c :: r) = c :: unescape r := by
  conv => lhs; unfold unescape
  split <;> simp_all

theorem unescape_entity {e : Text × Char} (h : e ∈ entities) (r : Text) :
    unescape (e.1 ++ r) = e.2 :: unescape r := by
  simp only [entities, List.mem_cons, List.not_mem_nil, or_false] at h
  rcases h with rfl | rfl | rfl | rfl | rfl <;> rfl

/-- Behind its ampersand an entity has nothing that means anything in markup. -/
theorem plain_tail_entity {e : Text} {c : Char} (h : (e, c) ∈ entities) :
    e.head? = some '&' ∧ ∀ d ∈ e.tail, d ≠ '&' ∧ isDelimiter d = false := by
  have hall : ∀ p ∈ entities, p.1.head? = some '&' ∧
      ∀ d ∈ p.1.tail, d ≠ '&' ∧ isDelimiter d = false := by
    simp [entities, isDelimiter]
  exact hall _ h

/-- A character goes over as an entity that stands for it, or as itself. -/
theorem escapeChar_cases (c : Char) :
    (escapeChar c, c) ∈ entities ∨ escapeChar c = [c] ∧ c ≠ '&' ∧ isDelimiter c = false := by
  by_cases h1 : c = '&'
  · simp [h1, entities, escapeChar, entity?]
  by_cases h2 : c = '<'
  · simp [h2, entities, escapeChar, entity?]
  by_cases h3 : c = '>'
  · simp [h3, entities, escapeChar, entity?]
  by_cases h4 : c = '"'
  · simp [h4, entities, escapeChar, entity?]
  by_cases h5 : c = '\''
  · simp [h5, entities, escapeChar, entity?]
  · right
    simp [h1, h2, h3, h4, h5, isDelimiter, escapeChar, entity?]

theorem escapeChar_eq_encoded (c : Char) : escapeChar c = encoded c := by
  simp only [escapeChar, entity?, encoded, entities, List.find?_cons]
  grind

theorem escape_eq_flatMap (t : Text) : escape t = t.flatMap encoded :=
  congrArg t.flatMap (funext escapeChar_eq_encoded)

theorem escape_cons (c : Char) (t : Text) : escape (c :: t) = escapeChar c ++ escape t := rfl

/-- A text without characters that entities stand for is left as it is. -/
theorem escape_eq_self {t : Text} (h : ∀ e ∈ entities, e.2 ∉ t) : escape t = t := by
  induction t with
  | nil => rfl
  | cons c t ih =>
    have ht := ih fun e he hm => h e he (List.mem_cons_of_mem _ hm)
    rcases escapeChar_cases c with he | ⟨he, -⟩
    · exact absurd (List.mem_cons_self ..) (h _ he)
    · rw [escape_cons, he, ht, List.singleton_append]

theorem unescape_escapeChar (c : Char) (r : Text) :
    unescape (escapeChar c ++ r) = c :: unescape r := by
  rcases escapeChar_cases c with h | ⟨h, hc, -⟩
  · exact unescape_entity h r
  · rw [h]
    exact unescape_cons hc r

theorem undelimited_escapeChar {c d : Char} (h : d ∈ escapeChar c) : isDelimiter d = false := by
  rcases escapeChar_cases c with he | ⟨he, -, hc⟩
  · obtain ⟨hh, ht⟩ := plain_tail_entity he
    obtain ⟨r, hr⟩ := List.head?_eq_some_iff.mp hh
    rw [hr] at h ht
    rcases List.mem_cons.mp h with rfl | h
    · rfl
    · exact (ht d h).2
  · rw [he] at h
    rwa [List.mem_singleton.mp h]

/-- An ampersand in front of which a character was escaped begins the entity of that character, or
stands in what follows. -/
theorem ampersand_escapeChar {c : Char} {r a b : Text} (h : escapeChar c ++ r = a ++ '&' :: b) :
    (∃ e ∈ entities, e.1 <+: '&' :: b) ∨ ∃ a', r = a' ++ '&' :: b := by
  rcases List.append_eq_append_iff.mp h with ⟨a', -, hr⟩ | ⟨s, hs, hb⟩
  · exact .inr ⟨a', hr⟩
  · rcases escapeChar_cases c with he | ⟨he, hc, -⟩
    · obtain ⟨hh, ht⟩ := plain_tail_entity he
      cases a with
      | nil => exact .inl ⟨_, he, r, h⟩
      | cons d a =>
        cases s with
        | nil => exact .inr ⟨[], hb.symm⟩
        | cons x s =>
          -- an ampersand behind the first character of an entity
          obtain ⟨rfl, -⟩ := List.cons.inj hb
          have hm : '&' ∈ (escapeChar c).tail := by simp [hs]
          exact absurd rfl (ht _ hm).1
    · cases s with
      | nil => exact .inr ⟨[], hb.symm⟩
      | cons x s =>
        obtain ⟨rfl, -⟩ := List.cons.inj hb
        have hm : '&' ∈ [c] := by rw [← he, hs]; simp
        exact absurd (List.mem_singleton.mp hm).symm hc

theorem inert_escape (t : Text) : Inert t (escape t) := by
  induction t with
  | nil => exact ⟨nofun, by simp [escape], rfl⟩
  | cons c t ih =>
    refine ⟨?_, ?_, ?_⟩
    · intro d hd
      rw [escape_cons, List.mem_append] at hd
      exact hd.elim undelimited_escapeChar (ih.undelimited d)
    · intro a b h
      rcases ampersand_escapeChar h with he | ⟨a', hr⟩
      · exact he
      · exact ih.ampersand a' b hr
    · rw [escape_cons, unescape_escapeChar, ih.reads]

end Packaging.Markup
