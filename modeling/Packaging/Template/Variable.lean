import Packaging.Text.Basic

/-! The variables that a template may name. A variable is written as its name in braces after a
dollar sign; names are matched exactly. -/

namespace Packaging.Template

inductive Variable where
  | localDirectory
  | appBaseName
  | appFriendlyName
  | appId
  | appShortSummary
  | appLicenseId
  | appVersion
  | packageRelease
  | packageName
  | publisherName
  | publisherId
  | publisherCopyright
  | publisherLinkName
  | publisherLinkUrl
  | publisherEmail
  | desktopNoDisplay
  | desktopIntegrate
  | desktopTerminal
  | primeCategory
  | deployKind
  | dotnetRuntime
  | buildArch
  | buildTarget
  | buildDate
  | buildYear
  | buildRoot
  | buildShare
  | buildAppBin
  | publishBin
  | installBin
  | installExec
  | descriptionMarkup
  | historyMarkup
deriving DecidableEq

namespace Variable

/-- Every variable, in the order in which they are listed. -/
def all : List Variable :=
  [localDirectory, appBaseName, appFriendlyName, appId, appShortSummary, appLicenseId, appVersion,
   packageRelease, packageName, publisherName, publisherId, publisherCopyright, publisherLinkName,
   publisherLinkUrl, publisherEmail, desktopNoDisplay, desktopIntegrate, desktopTerminal,
   primeCategory, deployKind, dotnetRuntime, buildArch, buildTarget, buildDate, buildYear,
   buildRoot, buildShare, buildAppBin, publishBin, installBin, installExec, descriptionMarkup,
   historyMarkup]

/-- The name and what the variable stands for. -/
def listing : Variable → String × String
  | localDirectory => ("LOCAL_DIRECTORY", "Directory containing the configuration file")
  | appBaseName => ("APP_BASE_NAME", "AppBaseName value")
  | appFriendlyName => ("APP_FRIENDLY_NAME", "AppFriendlyName value")
  | appId => ("APP_ID", "AppId value")
  | appShortSummary => ("APP_SHORT_SUMMARY", "AppShortSummary value")
  | appLicenseId => ("APP_LICENSE_ID", "AppLicenseId value")
  | appVersion => ("APP_VERSION", "Application version, excluding package release")
  | packageRelease => ("PACKAGE_RELEASE", "Package release number")
  | packageName => ("PACKAGE_NAME", "PackageName value, or AppBaseName if not set")
  | publisherName => ("PUBLISHER_NAME", "PublisherName value")
  | publisherId => ("PUBLISHER_ID", "PublisherId value")
  | publisherCopyright => ("PUBLISHER_COPYRIGHT", "PublisherCopyright value")
  | publisherLinkName => ("PUBLISHER_LINK_NAME", "PublisherLinkName value")
  | publisherLinkUrl => ("PUBLISHER_LINK_URL", "PublisherLinkUrl value")
  | publisherEmail => ("PUBLISHER_EMAIL", "PublisherEmail value")
  | desktopNoDisplay => ("DESKTOP_NODISPLAY", "DesktopNoDisplay value (true or false)")
  | desktopIntegrate => ("DESKTOP_INTEGRATE", "Logical NOT of DesktopNoDisplay")
  | desktopTerminal => ("DESKTOP_TERMINAL", "DesktopTerminal value (true or false)")
  | primeCategory => ("PRIME_CATEGORY", "PrimeCategory value")
  | deployKind => ("DEPLOY_KIND", "Package kind being built (e.g. appimage, deb, setup)")
  | dotnetRuntime => ("DOTNET_RUNTIME", "Runtime identifier used for publish (e.g. linux-x64)")
  | buildArch => ("BUILD_ARCH", "Target architecture (e.g. x64, arm64)")
  | buildTarget => ("BUILD_TARGET", "Build configuration (Release or Debug)")
  | buildDate => ("BUILD_DATE", "Build date in yyyy-MM-dd format")
  | buildYear => ("BUILD_YEAR", "Build year as yyyy")
  | buildRoot => ("BUILD_ROOT", "Root of the temporary build directory")
  | buildShare => ("BUILD_SHARE", "Shared data directory under the build root")
  | buildAppBin => ("BUILD_APP_BIN", "Application binary directory under the build root")
  | publishBin => ("PUBLISH_BIN", "Directory receiving published binaries")
  | installBin => ("INSTALL_BIN", "Installed binary directory on the target system")
  | installExec => ("INSTALL_EXEC", "Installed executable path on the target system")
  | descriptionMarkup => ("APPSTREAM_DESCRIPTION_XML", "AppDescription rendered as escaped markup")
  | historyMarkup => ("APPSTREAM_CHANGELOG_XML", "Changelog rendered as release markup")

def name (v : Variable) : Text := v.listing.1.toList

def hint (v : Variable) : Text := v.listing.2.toList

/-- The value is markup already and is never escaped. -/
def isMarkup : Variable → Bool
  | descriptionMarkup => true
  | historyMarkup => true
  | _ => false

def ofName? (n : Text) : Option Variable := all.find? (·.name == n)

def token (v : Variable) : Text := '$' :: '\x7b' :: v.name ++ ['\x7d']

theorem mem_all (v : Variable) : v ∈ all := by cases v <;> decide

end Variable

/-- The widest token, in which all hints start two columns after it. -/
def tokenWidth : Nat := (Variable.all.map (·.token.length)).foldl max 0

def Variable.helpLine (v : Variable) : Text :=
  v.token ++ List.replicate (tokenWidth - v.token.length) ' ' ++ ' ' :: ' ' :: v.hint ++
    (if v.isMarkup then " (markup)".toList else []) ++ ['\n']

/-- The list of all variables for people who write templates. -/
def help : Text :=
  "Macros may be used in text assets and script commands.\n\n".toList ++
    Variable.all.flatMap Variable.helpLine

end Packaging.Template
