import Packaging.Descriptor.Basic
import Packaging.History.Basic
import Packaging.Json
import Packaging.Markup.Block
import Packaging.Template.Piece

/-! What is known only when a package is built, and the values that variables have then. A build
is described fact by fact; of two facts of one sort the later counts, and facts of different sorts
do not touch each other. -/

namespace Packaging.Template

structure Build where
  deployKind : Text
  runtime : Text
  arch : Text
  target : Text
  version : Text
  release : Text
  date : Calendar.Date
  localDirectory : Path
  root : Path
  share : Path
  appBin : Path
  publishBin : Path
  installBin : Text
  installExec : Text
  history : Option History

inductive Fact where
  | deployKind (kind : Text)
  | runtime (id arch : Text)
  | target (name : Text)
  | version (number release : Text)
  | date (d : Calendar.Date)
  | directories (root share appBin publishBin : Path)
  | install (bin exec : Text)
  | history (h : History)

namespace Build

/-- A release build of the described version on a given day. -/
def ofDescriptor (d : Descriptor) (today : Calendar.Date) : Build where
  deployKind := []
  runtime := []
  arch := []
  target := "Release".toList
  version := d.version.number
  release := d.version.release
  date := today
  localDirectory := d.base
  root := ⟨[]⟩
  share := ⟨[]⟩
  appBin := ⟨[]⟩
  publishBin := ⟨[]⟩
  installBin := []
  installExec := []
  history := none

def learn (b : Build) : Fact → Build
  | .deployKind kind => { b with deployKind := kind }
  | .runtime id arch => { b with runtime := id, arch := arch }
  | .target name => { b with target := name }
  | .version number release => { b with version := number, release := release }
  | .date d => { b with date := d }
  | .directories root share appBin publishBin =>
    { b with root := root, share := share, appBin := appBin, publishBin := publishBin }
  | .install bin exec => { b with installBin := bin, installExec := exec }
  | .history h => { b with history := some h }

def learnAll (b : Build) (facts : List Fact) : Build := facts.foldl learn b

/-- A history without records still gives one release, the one that is built. -/
def historyMarkup (b : Build) : Text :=
  match b.history with
  | none => []
  | some h =>
    if h.records.isEmpty then
      "<release version=\"".toList ++ Markup.escape b.version ++ "\" date=\"".toList ++
        b.date.text ++ "\"/>".toList
    else h.markup

end Build

namespace Values

def ofBuild (d : Descriptor) (b : Build) : Values
  | .localDirectory => b.localDirectory.text
  | .appBaseName => d.value .appBaseName
  | .appFriendlyName => d.value .appFriendlyName
  | .appId => d.value .appId
  | .appShortSummary => d.value .appShortSummary
  | .appLicenseId => d.value .appLicenseId
  | .appVersion => b.version
  | .packageRelease => b.release
  | .packageName => d.packageName
  | .publisherName => d.value .publisherName
  | .publisherId => Option.getD (d.value .publisherId) []
  | .publisherCopyright => Option.getD (d.value .publisherCopyright) []
  | .publisherLinkName => Option.getD (d.value .publisherLinkName) []
  | .publisherLinkUrl => Option.getD (d.value .publisherLinkUrl) []
  | .publisherEmail => Option.getD (d.value .publisherEmail) []
  | .desktopNoDisplay => Text.ofBool (d.value .desktopNoDisplay)
  | .desktopIntegrate => Text.ofBool (!d.value .desktopNoDisplay)
  | .desktopTerminal => Text.ofBool (d.value .desktopTerminal)
  | .primeCategory => Option.getD (d.value .primeCategory) []
  | .deployKind => b.deployKind
  | .dotnetRuntime => b.runtime
  | .buildArch => b.arch
  | .buildTarget => b.target
  | .buildDate => b.date.text
  | .buildYear => b.date.plainYear
  | .buildRoot => b.root.text
  | .buildShare => b.share.text
  | .buildAppBin => b.appBin.text
  | .publishBin => b.publishBin.text
  | .installBin => b.installBin
  | .installExec => b.installExec
  | .descriptionMarkup => Markup.ofDescription (d.value .appDescription)
  | .historyMarkup => b.historyMarkup

/-- Names and values, as a process would be given them. -/
def environment (values : Values) : List (Text × Text) :=
  Variable.all.map fun v => (v.name, values v)

/-- The values agree for every variable. -/
def agrees (values other : Values) : Bool := Variable.all.all fun v => values v == other v

/-- The members are sorted by name. -/
def json (values : Values) : Json :=
  .object ((values.environment.mergeSort fun a b => Text.le a.1 b.1).map fun m => (m.1, .text m.2))

end Values

end Packaging.Template
