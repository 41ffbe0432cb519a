import Packaging.Descriptor.File
import Packaging.Proofs.Descriptor.Alike
import Packaging.Proofs.Descriptor.Rewrite
import Packaging.Proofs.Path.Absolute

/-! Descriptors that are read from files. The path of a file is made absolute first, and all paths
of its descriptor start from the directory above, so they are absolute as well. There is such a
directory, since a root holds no text. And a file that is named from the current directory is the
same under its full name. -/

namespace Packaging

open Component (IsStep)

namespace FileTree

/-- Each name that leads to the current directory is one step of a path. -/
def CwdNamed (tree : FileTree) : Prop := ∀ n ∈ tree.cwd, IsStep (.name n)

theorem isAbsolute_cwdPath (tree : FileTree) : tree.cwdPath.isAbsolute = true := rfl

/-- The path as the file under it is looked for. -/
def fullPath (tree : FileTree) (p : Path) : Path := Path.absolute tree.cwdPath p

theorem isAbsolute_fullPath (tree : FileTree) (p : Path) :
    (tree.fullPath p).isAbsolute = true := Path.isAbsolute_absolute tree.isAbsolute_cwdPath p

theorem CwdNamed.cwdPath_eq {tree : FileTree} (h : tree.CwdNamed) :
    tree.cwdPath = Path.ofNames tree.cwd := by
  rw [cwdPath, ← Path.text_ofNames h]

theorem CwdNamed.fullPath_join {tree : FileTree} (h : tree.CwdNamed) {p : Path}
    (hp : p.isAbsolute = false) (hne : p.text ≠ []) :
    tree.fullPath (tree.cwdPath.join p) = tree.fullPath p := by
  rw [fullPath, fullPath, h.cwdPath_eq, Path.absolute_join_ofNames h hp hne]

/-! ## Files below a root -/

theorem node?_nil (tree : FileTree) : tree.node? [] = some .directory := rfl

/-- Segments that lead nowhere do not lead away from the root. -/
theorem follow_holes (tree : FileTree) {segs : List Text}
    (h : ∀ s ∈ segs, Path.isHole s = true) : tree.follow [] segs = .ok [] := by
  induction segs with
  | nil => rfl
  | cons s segs ih =>
    obtain ⟨hs, hsegs⟩ := List.forall_mem_cons.mp h
    have hnone : Component.ofSegment? s = none := Option.isNone_iff_eq_none.mp hs
    rw [follow, node?_nil]
    simp only [hnone]
    exact ih hsegs

theorem follow_of_locate {tree : FileTree} {p : Path} {place : List Text}
    (h : tree.locate p = .ok place) :
    tree.follow (if p.isAbsolute then [] else tree.cwd) (Path.segments p.text) = .ok place := by
  unfold locate at h
  split at h
  · cases h
  · split at h
    · cases h
    · split at h
      · cases h
      · exact h

theorem exists_file_of_read {tree : FileTree} {p : Path} {t : Text} (h : tree.read p = .ok t) :
    ∃ place content, tree.locate p = .ok place ∧ tree.node? place = some (.file content) := by
  unfold read at h
  cases hl : tree.locate p with
  | error e =>
    rw [hl] at h
    cases h
  | ok place =>
    rw [hl] at h
    simp only [bind, Except.bind] at h
    split at h
    · cases h
    · cases h
    · rename_i content hc
      exact ⟨place, content, rfl, hc⟩

theorem read_of_locate {tree : FileTree} {p : Path} {place : List Text} {t : Text}
    (hl : tree.locate p = .ok place)
    (hf : tree.node? place = some (.file (String.ofList t).toUTF8)) : tree.read p = .ok t := by
  have hvalid : String.fromUTF8? (String.ofList t).toUTF8 = some (String.ofList t) :=
    dif_pos (String.ofList t).isValidUTF8
  rw [read, hl]
  simp only [bind, Except.bind, hf, hvalid, String.toList_ofList]

/-- A file stands below a root, so its absolute path has a parent. -/
theorem exists_parent_of_read {tree : FileTree} {p : Path} {t : Text}
    (h : p.isAbsolute = true) (hr : tree.read p = .ok t) :
    ∃ q, p.parent? = some q ∧ q.isAbsolute = true := by
  rcases Path.parent?_cases h with hq | ⟨-, hholes⟩
  · exact hq
  · obtain ⟨place, content, hl, hfile⟩ := exists_file_of_read hr
    have hplace := follow_of_locate hl
    rw [if_pos h, tree.follow_holes hholes] at hplace
    obtain rfl := Except.ok.inj hplace
    cases hfile

end FileTree

/-! ## What is read -/

namespace Descriptor

/-- A descriptor does not depend on the name of its document. -/
theorem ofText_of_ofText {name : Text} {t : Text} {doc : Document} {base : Path}
    {check : PathCheck} (h : Document.ofText name t = .ok doc) (name' : Text) :
    ofText name' t base check = ofDocument doc base check := by
  obtain ⟨items, hcut, hd, rfl⟩ := Document.ofLines_eq_ok_iff_cut.mp h
  have h' : Document.ofText name' t =
      .ok ⟨name', Text.lines t, Document.entriesFrom 1 items⟩ :=
    Document.ofLines_eq_ok_iff_cut.mpr ⟨items, hcut, hd, rfl⟩
  rw [ofText, h']
  exact ofDocument_congr rfl base check

theorem ofDocument_normal (doc : Document) (base : Path) (check : PathCheck) :
    ofDocument doc base.normal check = ofDocument doc base check := by
  rw [ofDocument, ofDocument, Path.normal_normal]

/-- The descriptor in a file is that of its text, seen from the directory above. -/
theorem ofFile_eq (tree : FileTree) {p : Path} (h : p.text ≠ []) (check : PathCheck) :
    ofFile tree p check =
      match tree.read (tree.fullPath p) with
      | .error e => .error (.file e)
      | .ok t => ofText ((tree.fullPath p).fileName?.getD (tree.fullPath p).text) t
          ((tree.fullPath p).parent?.getD ⟨['/']⟩) check := by
  rw [ofFile, if_neg (by simpa using h)]
  change (Document.ofFile tree (tree.fullPath p) >>= _) = _
  unfold Document.ofFile ofText
  cases tree.read (tree.fullPath p) with
  | error e => rfl
  | ok t =>
    dsimp only
    cases Document.ofText ((tree.fullPath p).fileName?.getD (tree.fullPath p).text) t <;> rfl

/-- A descriptor that is read from a file has an absolute base, and all its paths are absolute. The
file is found under an absolute path that has a parent, and the descriptor is the one of its text
with the normal form of that parent as the base. For a relative path that is not empty it makes no
difference whether the current directory is put in front of it. -/
theorem ofFile_absolute_under_any_name (tree : FileTree) (p : Path) (check : PathCheck) :
    (∀ d, ofFile tree p check = .ok d → d.base.isAbsolute = true ∧
      (∀ s : Setting, ∀ q ∈ s.kind.pathsOf (d.value s), q.isAbsolute = true) ∧
      ∃ t parent, tree.read (tree.fullPath p) = .ok t ∧
        (tree.fullPath p).parent? = some parent ∧ d.base = parent.normal ∧
        ∀ name, ofText name t parent.normal check = .ok d) ∧
    (tree.CwdNamed → p.text ≠ [] → p.isAbsolute = false →
      ofFile tree (tree.cwdPath.join p) check = ofFile tree p check) := by
  constructor
  · intro d h
    have hne : p.text ≠ [] := fun he => by simp [ofFile, he] at h
    rw [ofFile_eq tree hne] at h
    cases hread : tree.read (tree.fullPath p) with
    | error e =>
      simp only [hread] at h
      cases h
    | ok t =>
      obtain ⟨parent, hparent, hup⟩ :=
        FileTree.exists_parent_of_read (tree.isAbsolute_fullPath p) hread
      simp only [hread, hparent, Option.getD_some] at h
      obtain ⟨doc, hdoc, hd⟩ := ofText_eq_ok_iff.mp h
      have hbase := (ofDocument_eq_ok_iff.mp hd).1
      have habs : d.base.isAbsolute = true := by rw [hbase, Path.isAbsolute_normal, hup]
      refine ⟨habs, fun s q hq => ?_, t, parent, rfl, hparent, hbase, fun name => ?_⟩
      · exact Kind.isAbsolute_of_mem_pathsOf habs (valid_of_ofDocument hd s) s.default_valid hq
      · rw [ofText_of_ofText hdoc, ofDocument_normal, hd]
  · intro hc hne hp
    have hjoin : (tree.cwdPath.join p).text ≠ [] := by
      have habs := Path.isAbsolute_join p tree.isAbsolute_cwdPath
      exact List.ne_nil_of_mem (List.mem_of_mem_head? (Path.isAbsolute_iff.mp habs))
    rw [ofFile_eq tree hjoin, ofFile_eq tree hne, hc.fullPath_join hp hne]

def plainText : Text :=
  Text.unlines (["AppBaseName = app", "AppFriendlyName = App", "AppId = org.app",
    "AppVersionRelease = 1.0", "AppShortSummary = An app", "AppLicenseId = MIT",
    "PublisherName = Me", "IconFiles = ../a.png"].map String.toList)

/-- A file below the current directory. -/
def plainTree : FileTree :=
  { FileTree.empty.addFile ["home".toList, "app".toList, "app.conf".toList]
      (String.ofList plainText).toUTF8 with
    cwd := ["home".toList] }

theorem ofFile_absolute_under_any_name_plainTree :
    ∃ d, ofFile plainTree ⟨".//app/../app/app.conf".toList⟩ .off = .ok d ∧
      d.base = ⟨"/home/app".toList⟩ ∧
      (∀ s : Setting, ∀ q ∈ s.kind.pathsOf (d.value s), q.isAbsolute = true) ∧
      ofFile plainTree ⟨"/home/.//app/../app/app.conf".toList⟩ .off = .ok d := by
  have hfull : plainTree.fullPath ⟨".//app/../app/app.conf".toList⟩ =
      ⟨"/home/app/../app/app.conf".toList⟩ := by decide +kernel
  have hplace : plainTree.locate ⟨"/home/app/../app/app.conf".toList⟩ =
      .ok ["home".toList, "app".toList, "app.conf".toList] := by decide +kernel
  have hread : plainTree.read ⟨"/home/app/../app/app.conf".toList⟩ = .ok plainText :=
    FileTree.read_of_locate hplace rfl
  have hfile : Path.fileName? ⟨"/home/app/../app/app.conf".toList⟩ = some "app.conf".toList := by
    decide +kernel
  have hparent : Path.parent? ⟨"/home/app/../app/app.conf".toList⟩ =
      some ⟨"/home/app/../app".toList⟩ := by decide +kernel
  have hbase : (ofText "app.conf".toList plainText ⟨"/home/app/../app".toList⟩ .off).toOption.map
      (·.base) = some ⟨"/home/app".toList⟩ := by decide +kernel
  obtain ⟨d, hd, hbase⟩ := exists_ok_of_map hbase
  have hok : ofFile plainTree ⟨".//app/../app/app.conf".toList⟩ .off = .ok d := by
    rw [ofFile_eq _ (by decide), hfull, hread, hfile, hparent]
    exact hd
  obtain ⟨habs, hjoin⟩ := ofFile_absolute_under_any_name plainTree
    ⟨".//app/../app/app.conf".toList⟩ .off
  have hcwd : plainTree.CwdNamed := fun n hn => by
    obtain rfl : n = "home".toList := List.mem_singleton.mp hn
    exact .name (by decide) (by decide) (by decide) (by decide)
  have hname : plainTree.cwdPath.join ⟨".//app/../app/app.conf".toList⟩ =
      ⟨"/home/.//app/../app/app.conf".toList⟩ := by decide +kernel
  have hsame := hjoin hcwd (by decide) (by decide)
  rw [hname] at hsame
  exact ⟨d, hok, hbase, (habs d hok).2.1, hsame.trans hok⟩

end Descriptor

end Packaging
