import Packaging.Proofs.Document.Pairs
import Packaging.Proofs.Text.Lowercase

/-! Lines that are rearranged. Lines to skip come and go between items, keys are written in another
case, and whole chunks of lines change their places. What a document answers, its keys in lower case
with their values, is kept by the first two and is put in another order by the third; and where no
two keys are the same the order makes no difference to what is found. -/

namespace Packaging.Document

open Text (AllBlank Trimmed)

/-! ## Answers -/

/-- The keys that the entries answer to, with their values. -/
def answers (es : List Entry) : List (Text × Text) := es.map fun e => (e.folded, e.value)

theorem answers_append (es fs : List Entry) : answers (es ++ fs) = answers es ++ answers fs :=
  List.map_append

theorem map_fst_answers (es : List Entry) : (answers es).map Prod.fst = es.map Entry.folded := by
  simp [answers]

theorem nodup_folded_of_perm {es fs : List Entry} (h : (answers es).Perm (answers fs))
    (hd : (es.map Entry.folded).Nodup) : (fs.map Entry.folded).Nodup := by
  rw [← map_fst_answers] at hd ⊢
  exact (h.map Prod.fst).nodup_iff.mp hd

/-- Among different keys a document gives for a key what it answers to it. -/
theorem get?_eq_some_iff {doc : Document} (hd : (doc.entries.map Entry.folded).Nodup)
    {key v : Text} : doc.get? key = some v ↔ (Text.lower key, v) ∈ answers doc.entries := by
  simp only [get?, answers, Option.map_eq_some_iff, List.mem_map, Prod.mk.injEq]
  constructor
  · rintro ⟨e, he, rfl⟩
    exact ⟨e, List.mem_of_find?_eq_some he, by simpa using List.find?_some he, rfl⟩
  · rintro ⟨e, he, hkey, rfl⟩
    refine ⟨e, ?_, rfl⟩
    have h := entry?_of_mem hd he
    unfold entry? at h
    rwa [show Text.lower e.key = Text.lower key from hkey] at h

/-- The order of the entries makes no difference to what is found. -/
theorem get?_of_perm {doc doc' : Document} (hd : (doc.entries.map Entry.folded).Nodup)
    (h : (answers doc.entries).Perm (answers doc'.entries)) (key : Text) :
    doc.get? key = doc'.get? key := by
  refine Option.ext fun v => ?_
  rw [get?_eq_some_iff hd, get?_eq_some_iff (nodup_folded_of_perm h hd), h.mem_iff]

/-! ## Keys in another case -/

/-- The one line is the other with its key replaced. -/
def Rekeyed (line key line' key' : Text) : Prop :=
  ∃ front back, AllBlank front ∧ line = front ++ (key ++ back) ∧ line' = front ++ (key' ++ back)

/-- What stands around the key of a line. -/
theorem Assigns.exists_parts {line key v : Text} (h : Assigns line key v) :
    ∃ a s w b, AllBlank a ∧ AllBlank s ∧ AllBlank b ∧ Text.trim line = key ++ (s ++ '=' :: w) ∧
      line = a ++ (key ++ (s ++ '=' :: w ++ b)) ∧ Trimmed key ∧ '=' ∉ key ∧ v = Text.trim w := by
  obtain ⟨-, -, k, w, htrim, heq, rfl, rfl⟩ := h
  obtain ⟨c, s, hc, hs, hk⟩ := Text.exists_trim k
  obtain ⟨a, b, ha, hb, hline⟩ := Text.exists_trim line
  -- nothing stands before the key in a trimmed line
  obtain rfl : c = [] := by
    cases c with
    | nil => rfl
    | cons d c =>
      have hd := (Text.trimmed_trim line).head d (by rw [htrim, hk]; rfl)
      rw [hc d (List.mem_cons_self ..)] at hd
      cases hd
  rw [List.nil_append] at hk
  have hmid : Text.trim line = Text.trim k ++ (s ++ '=' :: w) := by
    rw [htrim, ← List.append_assoc, ← hk]
  refine ⟨a, s, w, b, ha, hs, hb, hmid, ?_, Text.trimmed_trim k,
    fun hm => heq (Text.mem_of_mem_trim hm), rfl⟩
  rw [hmid] at hline
  simpa only [List.append_assoc] using hline

/-- A line that starts no comment starts none with its key in another case. -/
theorem not_skipped_of_lower_eq {line line' key key' rest : Text} (h : ¬IsSkipped line)
    (hline : Text.trim line = key ++ rest) (hline' : Text.trim line' = key' ++ rest)
    (hne : key ≠ []) (hrest : '/' ∉ rest.head?) (hl : Text.lower key' = Text.lower key) :
    ¬IsSkipped line' := by
  have hback : ∀ m : Text, m.all Text.isBreak = true → m <+: key' → m <+: Text.trim line :=
    fun m hm hp => by
      rw [hline]
      exact ((Text.prefix_iff_of_lower_eq hl hm).mp hp).trans (List.prefix_append ..)
  obtain ⟨c, r, rfl⟩ := List.exists_cons_of_ne_nil (Text.ne_nil_of_lower_eq hl hne)
  unfold IsSkipped
  rw [hline', List.cons_append]
  rintro (he | he | he)
  · cases he
  · obtain ⟨rfl, -⟩ := List.cons_prefix_cons.mp he
    exact h (.inr (.inl (hback _ rfl ⟨r, rfl⟩)))
  · obtain ⟨rfl, hs⟩ := List.cons_prefix_cons.mp he
    cases r with
    | nil => exact hrest (List.singleton_prefix_iff_head?_eq_some.mp hs)
    | cons d r =>
      obtain ⟨rfl, -⟩ := List.cons_prefix_cons.mp hs
      exact h (.inr (.inr (hback _ rfl ⟨r, rfl⟩)))

/-- A line whose key is written in another case gives that key the same value. -/
theorem Assigns.rekeyed {line key line' key' v : Text} (h : Assigns line key v)
    (hr : Rekeyed line key line' key') (hl : Text.lower key' = Text.lower key) :
    Assigns line' key' v := by
  obtain ⟨a, s, w, b, ha, hs, hb, htrim, hline, hkey, heq, rfl⟩ := h.exists_parts
  obtain ⟨hskip, hne, -⟩ := h
  obtain ⟨front, back, hfront, hline', rfl⟩ := hr
  have hkey' : Trimmed key' := hkey.of_lower_eq hl
  have hne' : key' ≠ [] := Text.ne_nil_of_lower_eq hl hne
  have hhead : ∀ r : Text, ∀ c ∈ (key ++ r).head?, Text.isBlank c = false := fun r => by
    rw [List.head?_append_of_ne_nil _ hne]
    exact hkey.head
  obtain ⟨rfl, hrest⟩ := ha.append_inj hfront (hhead _) (hhead back)
    (hline.symm.trans hline')
  obtain rfl := List.append_cancel_left hrest
  have hmid : Trimmed (key' ++ (s ++ '=' :: w)) := by
    refine Text.trimmed_append hkey'.head ?_ hne' (by simp)
    have := (htrim ▸ Text.trimmed_trim line).last
    rwa [List.getLast?_append_of_ne_nil _ (by simp)] at this
  have htrim' : Text.trim (a ++ (key' ++ (s ++ '=' :: w ++ b))) = key' ++ (s ++ '=' :: w) := by
    have := hmid.trim_between ha hb
    rwa [List.append_assoc, List.append_assoc] at this
  have hs' : '/' ∉ (s ++ '=' :: w).head? := by
    cases s with
    | nil => simp
    | cons d s =>
      rintro hd
      cases hd
      cases hs '/' (List.mem_cons_self ..)
  refine ⟨not_skipped_of_lower_eq hskip htrim htrim' hne hs' hl, hne', key' ++ s, w, ?_, ?_, ?_,
    rfl⟩
  · rw [htrim', List.append_assoc]
  · rw [List.mem_append, Text.mem_iff_of_lower_eq hl (by decide)]
    rintro (hm | hm)
    · exact heq hm
    · cases hs '=' hm
  · rw [Text.trim_append_right hs, hkey'.trim_eq]

/-! ## Items -/

/-- What the item answers. -/
def Item.answer? : Item → Option (Text × Text)
  | .skipped _ => none
  | .entry _ key value => some (Text.lower key, value)
  | .block _ _ _ key value => some (Text.lower key, value)

theorem answers_entriesFrom (n : Nat) (items : List Item) :
    answers (entriesFrom n items) = items.filterMap Item.answer? := by
  induction items generalizing n with
  | nil => rfl
  | cons i items ih =>
    rw [entriesFrom, answers_append, ih, List.filterMap_cons]
    cases i <;> rfl

/-- The same item with its key in another case. -/
inductive Item.Rekeyed : Item → Item → Prop
  | entry {line key line' key' value : Text} : Document.Rekeyed line key line' key' →
      Text.lower key' = Text.lower key → Rekeyed (.entry line key value) (.entry line' key' value)
  | block {opening key opening' key' closing value : Text} {body : List Text} :
      Document.Rekeyed opening key opening' key' → Text.lower key' = Text.lower key →
      Rekeyed (.block opening body closing key value) (.block opening' body closing key' value)

theorem Item.Rekeyed.valid {i j : Item} (h : i.Rekeyed j) (hi : i.Valid) : j.Valid := by
  cases h with
  | entry hr hl =>
    cases hi with
    | entry ha hv => exact .entry (ha.rekeyed hr hl) hv
  | block hr hl =>
    cases hi with
    | block ha hf hb hc => exact .block (ha.rekeyed hr hl) hf hb hc

theorem Item.Rekeyed.answer?_eq {i j : Item} (h : i.Rekeyed j) : j.answer? = i.answer? := by
  cases h with
  | entry hr hl => simp [answer?, hl]
  | block hr hl => simp [answer?, hl]

/-- Items that are kept, with their keys in any case, while lines to skip come and go. -/
inductive Edits : List Item → List Item → Prop
  | nil : Edits [] []
  | keep (i : Item) {is js : List Item} : Edits is js → Edits (i :: is) (i :: js)
  | rekey {i j : Item} {is js : List Item} : i.Rekeyed j → Edits is js → Edits (i :: is) (j :: js)
  | drop (line : Text) {is js : List Item} : Edits is js → Edits (.skipped line :: is) js
  | add {line : Text} {is js : List Item} : IsSkipped line → Edits is js →
      Edits is (.skipped line :: js)

theorem Edits.refl (is : List Item) : Edits is is := by
  induction is with
  | nil => exact .nil
  | cons i is ih => exact .keep i ih

theorem Edits.valid {is js : List Item} (h : Edits is js) (hv : ∀ i ∈ is, i.Valid) :
    ∀ j ∈ js, j.Valid := by
  induction h with
  | nil => nofun
  | keep i _ ih =>
    obtain ⟨hi, his⟩ := List.forall_mem_cons.mp hv
    exact List.forall_mem_cons.mpr ⟨hi, ih his⟩
  | rekey hr _ ih =>
    obtain ⟨hi, his⟩ := List.forall_mem_cons.mp hv
    exact List.forall_mem_cons.mpr ⟨hr.valid hi, ih his⟩
  | drop _ _ ih => exact ih (List.forall_mem_cons.mp hv).2
  | add hs _ ih => exact List.forall_mem_cons.mpr ⟨.skipped hs, ih hv⟩

theorem Edits.filterMap_answer? {is js : List Item} (h : Edits is js) :
    js.filterMap Item.answer? = is.filterMap Item.answer? := by
  induction h with
  | nil => rfl
  | keep i _ ih => rw [List.filterMap_cons, List.filterMap_cons, ih]
  | rekey hr _ ih => rw [List.filterMap_cons, List.filterMap_cons, ih, hr.answer?_eq]
  | drop line _ ih => exact ih
  | add _ _ ih => exact ih

/-! ## Lines -/

/-- The lines are those of the other items: lines are skipped or not, and keys are written in
another case. -/
def Edited (ls ms : List Text) : Prop :=
  ∃ is js, Cut ls is ∧ Edits is js ∧ ms = js.flatMap Item.lines

/-- Chunks that are cut one by one are cut as a whole, and answer one after the other. -/
theorem exists_cut_flatten {chunks : List (List Text)}
    (h : ∀ c ∈ chunks, ∃ items, Cut c items) :
    ∃ items, Cut chunks.flatten items ∧
      items.filterMap Item.answer? = chunks.flatMap fun c => answers (scan 1 c).1 := by
  induction chunks with
  | nil => exact ⟨[], cut_nil, rfl⟩
  | cons c chunks ih =>
    obtain ⟨⟨is, hc⟩, hcs⟩ := List.forall_mem_cons.mp h
    obtain ⟨js, hj, hjs⟩ := ih hcs
    refine ⟨is ++ js, hc.append hj, ?_⟩
    rw [List.filterMap_append, hjs, List.flatMap_cons, scan_of_cut hc, answers_entriesFrom]

/-- Chunks of lines that are put in another order, and are edited, are accepted again, with the
answers that they had. -/
theorem exists_rearranged {name name' : Text} {chunks order : List (List Text)}
    {lines : List Text} {doc : Document}
    (hchunks : ∀ c ∈ chunks, ∃ part, ofLines name c = .ok part)
    (hdoc : ofLines name chunks.flatten = .ok doc) (hperm : chunks.Perm order)
    (hedit : Edited order.flatten lines) :
    ∃ doc', ofLines name' lines = .ok doc' ∧ (doc.entries.map Entry.folded).Nodup ∧
      (answers doc.entries).Perm (answers doc'.entries) := by
  have hcuts : ∀ c ∈ chunks, ∃ items, Cut c items := fun c hc => by
    obtain ⟨part, hp⟩ := hchunks c hc
    obtain ⟨items, hi, -⟩ := ofLines_eq_ok_iff_cut.mp hp
    exact ⟨items, hi⟩
  obtain ⟨is, his, hans⟩ := exists_cut_flatten hcuts
  obtain ⟨js, hjs, hans'⟩ := exists_cut_flatten fun c hc => hcuts c (hperm.mem_iff.mpr hc)
  obtain ⟨items, hitems, hd, rfl⟩ := ofLines_eq_ok_iff_cut.mp hdoc
  obtain ⟨ks, ms, hks, hedits, rfl⟩ := hedit
  obtain rfl := his.unique hitems
  obtain rfl := hjs.unique hks
  have hp : (answers (entriesFrom 1 is)).Perm (answers (entriesFrom 1 ms)) := by
    rw [answers_entriesFrom, answers_entriesFrom, hedits.filterMap_answer?, hans, hans']
    exact hperm.flatMap_right _
  have hcut : Cut (ms.flatMap Item.lines) ms := ⟨rfl, hedits.valid hjs.valid⟩
  exact ⟨_, ofLines_eq_ok_iff_cut.mpr ⟨ms, hcut, nodup_folded_of_perm hp hd, rfl⟩, hd, hp⟩

end Packaging.Document
