import Packaging.Descriptor.Basic
import Packaging.Document.Read
import Packaging.Fault
import Packaging.Text.Items

/-! From a document to a descriptor. Each setting is read by itself, from nothing but its trimmed
value, and the first in the order of declaration that refuses its value is the fault of the whole.
-/

namespace Packaging

/-- Which paths have to exist. -/
inductive PathCheck where
  | off
  | on (isPresent : Path → Bool)

def PathCheck.passes : PathCheck → Path → Bool
  | .off, _ => true
  | .on isPresent, p => isPresent p

/-- The word that rules a path out, in any case of its letters. -/
def disabledWord : Text := "NONE".toList

namespace Kind

/-- A value on one line. -/
def readLine (cls : CharClass) (t : Text) : Except SettingFault Text :=
  if t.contains '\n' then .error .lineBreak
  else match cls.fault? t with
    | some fault => .error (.chars fault)
    | none => .ok t

def readFlag (t : Text) : Except SettingFault Bool :=
  if Text.sameLetters t "true".toList then .ok true
  else if Text.sameLetters t "false".toList then .ok false
  else .error (.flag t)

def readVersion (t : Text) : Except SettingFault Version := do
  let t ← readLine .oneWord t
  match Version.ofText? t with
  | some v => .ok v
  | none => .error (.version t)

/-- An absolute path stays as it is written, any other is found from `base`. -/
def resolve (base : Path) (t : Text) : Path :=
  if Path.isAbsolute ⟨t⟩ then ⟨t⟩ else (base.join ⟨t⟩).normal

def readPresent (base : Path) (check : PathCheck) (t : Text) : Except SettingFault Path :=
  let p := resolve base t
  if check.passes p then .ok p else .error (.absent p)

def readPath (base : Path) (check : PathCheck) (t : Text) : Except SettingFault PathValue := do
  let t ← readLine .safe t
  if Text.sameLetters t disabledWord then .ok .disabled
  else .resolved <$> readPresent base check t

def readItem (rule : ItemRule) (t : Text) : Except SettingFault Text :=
  match CharClass.fault? .safe t with
  | some fault => .error (.itemChars fault t)
  | none =>
    if !rule.start.isPrefixOf t then .error (.itemStart t rule.start)
    else if !Text.hasPart rule.part t then .error (.itemPart t rule.part)
    else .ok t

def readItems (rule : ItemRule) (t : Text) : Except SettingFault (List Text) :=
  (Text.items t).mapM (readItem rule)

/-- The value of a setting of this kind, given its text if that is not blank. -/
def read (base : Path) (check : PathCheck) : (k : Kind) → Option Text → Except SettingFault k.Value
  | .required _, none => .error .missing
  | .required cls, some t => readLine cls t
  | .optional _, none => .ok none
  | .optional cls, some t => some <$> readLine cls t
  | .defaulted _ value, none => .ok value
  | .defaulted cls _, some t => readLine cls t
  | .version, none => .error .missing
  | .version, some t => readVersion t
  | .flag value, none => .ok value
  | .flag _, some t => readFlag t
  | .path, none => .ok .unset
  | .path, some t => readPath base check t
  | .directory value, none => .ok (base.join value)
  | .directory value, some t =>
    (fun v => v.path?.getD (base.join value)) <$> readPath base .off t
  | .paths, none => .ok []
  | .paths, some t => do (← readItems anyItem t).mapM (readPresent base check)
  | .items _, none => .ok []
  | .items rule, some t => readItems rule t
  | .paragraphs, none => .ok []
  | .paragraphs, some t => .ok (Text.paragraphLines t)

end Kind

namespace Setting

def read (doc : Document) (base : Path) (check : PathCheck) (s : Setting) :
    Except SettingFault s.Value :=
  s.kind.read base check (doc.setting? s.key)

/-- The key is the key of a setting. -/
def isDeclared (key : Text) : Bool := all.any fun s => Text.lower s.key == Text.lower key

/-- The fault of a reading that failed. -/
def faultOf {α : Type} : Except SettingFault α → Option SettingFault
  | .error fault => some fault
  | .ok _ => none

/-- The first setting that a reading fails for, with its fault. -/
def firstFault? (f : (s : Setting) → Except SettingFault s.Value) :
    Option (Setting × SettingFault) :=
  all.findSome? fun s => (faultOf (f s)).map (s, ·)

theorem isOk_of_firstFault?_eq_none {f : (s : Setting) → Except SettingFault s.Value}
    (h : firstFault? f = none) (s : Setting) : ∃ v, f s = .ok v := by
  have hs := List.findSome?_eq_none_iff.mp h s (mem_all s)
  cases hf : f s with
  | ok v => exact ⟨v, rfl⟩
  | error e => simp [hf, faultOf] at hs

/-- The value of a reading that is known to succeed. -/
def valueOf {α : Type} : (r : Except SettingFault α) → (∃ v, r = .ok v) → α
  | .ok v, _ => v
  | .error _, h => absurd h (by simp)

/-- All values of a reading, or its first fault. -/
def collect (f : (s : Setting) → Except SettingFault s.Value) :
    Except Fault ((s : Setting) → s.Value) :=
  match h : firstFault? f with
  | some (s, fault) => .error (.setting s fault)
  | none => .ok fun s => valueOf (f s) (isOk_of_firstFault?_eq_none h s)

end Setting

namespace Descriptor

/-- The keys of a document that are of no setting, as written and in their order. -/
def unknownKeys (doc : Document) : List Text :=
  (doc.entries.map (·.key)).filter (!Setting.isDeclared ·)

def ofDocument (doc : Document) (base : Path) (check : PathCheck) : Except Fault Descriptor := do
  let base := base.normal
  let value ← Setting.collect fun s => s.read doc base check
  .ok ⟨base, value, unknownKeys doc⟩

/-- Reads a document that has the given name in messages. -/
def ofText (name t : Text) (base : Path) (check : PathCheck) : Except Fault Descriptor :=
  match Document.ofText name t with
  | .error e => .error (.line name e)
  | .ok doc => ofDocument doc base check

end Descriptor

end Packaging
