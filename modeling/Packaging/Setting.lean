import Packaging.CharClass
import Packaging.Path
import Packaging.Version

/-! The settings that describe an application to be packaged. They are declared in one table,
section by section; that order is the one in which they are read, checked and written. The kind of
a setting fixes both what its value is and how the value is read. -/

namespace Packaging

inductive Section where
  | app
  | publisher
  | desktop
  | dotnet
  | output
  | appimage
  | flatpak
  | rpm
  | debian
  | setup
deriving DecidableEq

inductive Setting where
  | appBaseName
  | appFriendlyName
  | appId
  | appVersionRelease
  | appShortSummary
  | appDescription
  | appLicenseId
  | appLicenseFile
  | appChangeFile
  | publisherName
  | publisherId
  | publisherCopyright
  | publisherLinkName
  | publisherLinkUrl
  | publisherEmail
  | desktopNoDisplay
  | desktopTerminal
  | desktopFile
  | startCommand
  | primeCategory
  | metaFile
  | iconFiles
  | dotnetProjectPath
  | dotnetPublishArgs
  | dotnetPostPublish
  | dotnetPostPublishOnWindows
  | packageName
  | outputDirectory
  | appImageArgs
  | appImageVersionOutput
  | flatpakPlatformRuntime
  | flatpakPlatformSdk
  | flatpakPlatformVersion
  | flatpakFinishArgs
  | flatpakBuilderArgs
  | rpmAutoReq
  | rpmAutoProv
  | rpmRequires
  | debianRecommends
  | setupGroupName
  | setupAdminInstall
  | setupCommandPrompt
  | setupMinWindowsVersion
  | setupSignTool
  | setupSuffixOutput
  | setupVersionOutput
deriving DecidableEq

/-- What every item of a list has to start with and to contain. -/
structure ItemRule where
  start : Text
  part : Text

/-- What the value of a setting is, and what it is when the document does not say. -/
inductive Kind where
  | required (cls : CharClass)
  | optional (cls : CharClass)
  | defaulted (cls : CharClass) (value : Text)
  | version
  | flag (value : Bool)
  | path
  | directory (value : Path)
  | paths
  | items (rule : ItemRule)
  | paragraphs

/-- A path may be left open, or be ruled out by a word of its own. -/
inductive PathValue where
  | unset
  | disabled
  | resolved (p : Path)
deriving DecidableEq

def PathValue.path? : PathValue → Option Path
  | .resolved p => some p
  | _ => none

abbrev Kind.Value : Kind → Type
  | .required _ => Text
  | .optional _ => Option Text
  | .defaulted _ _ => Text
  | .version => Version
  | .flag _ => Bool
  | .path => PathValue
  | .directory _ => Path
  | .paths => List Path
  | .items _ => List Text
  | .paragraphs => List Text

/-- What the table says of a setting. -/
structure Declaration where
  key : String
  member : String
  kind : Kind
  help : List String

def anyItem : ItemRule := ⟨[], []⟩

def defaultOutputDirectory : Path := ⟨"Deploy/OUT".toList⟩

namespace Setting

abbrev declaration : Setting → Declaration
  | appBaseName => ⟨"AppBaseName", "base_name", .required .oneWord,
      ["Mandatory application base name. Must not contain spaces."]⟩
  | appFriendlyName => ⟨"AppFriendlyName", "friendly_name", .required .safe,
      ["Mandatory friendly name, may contain spaces."]⟩
  | appId => ⟨"AppId", "id", .required .oneWord,
      ["Mandatory reverse DNS application identifier."]⟩
  | appVersionRelease => ⟨"AppVersionRelease", "version_release", .version,
      ["Mandatory version and package release in the form VERSION[RELEASE].",
       "Release defaults to 1 when omitted."]⟩
  | appShortSummary => ⟨"AppShortSummary", "short_summary", .required .free,
      ["Mandatory single line summary."]⟩
  | appDescription => ⟨"AppDescription", "description", .paragraphs,
      ["Optional multi-line description. Blank lines separate paragraphs;",
       "lines starting with '* ', '- ' or '+ ' form a list."]⟩
  | appLicenseId => ⟨"AppLicenseId", "license_id", .required .safe,
      ["Mandatory license identifier, e.g. MIT or GPL-3.0-or-later."]⟩
  | appLicenseFile => ⟨"AppLicenseFile", "license_file", .path,
      ["Optional path to a license file. NONE to omit."]⟩
  | appChangeFile => ⟨"AppChangeFile", "change_file", .path,
      ["Optional path to a changelog file. NONE to omit."]⟩
  | publisherName => ⟨"PublisherName", "name", .required .safe,
      ["Mandatory publisher or author name."]⟩
  | publisherId => ⟨"PublisherId", "id", .optional .oneWord,
      ["Optional reverse DNS publisher identifier."]⟩
  | publisherCopyright => ⟨"PublisherCopyright", "copyright", .optional .safe,
      ["Optional copyright statement."]⟩
  | publisherLinkName => ⟨"PublisherLinkName", "link_name", .optional .safe,
      ["Optional name for the publisher link."]⟩
  | publisherLinkUrl => ⟨"PublisherLinkUrl", "link_url", .optional .oneWord,
      ["Optional publisher URL."]⟩
  | publisherEmail => ⟨"PublisherEmail", "email", .optional .oneWord,
      ["Optional publisher email."]⟩
  | desktopNoDisplay => ⟨"DesktopNoDisplay", "no_display", .flag false,
      ["Hide the application from desktop menus. true or false."]⟩
  | desktopTerminal => ⟨"DesktopTerminal", "terminal", .flag true,
      ["Run the application in a terminal. true or false."]⟩
  | desktopFile => ⟨"DesktopFile", "desktop_file", .path,
      ["Optional custom desktop entry file. Blank for the default; NONE for no entry."]⟩
  | startCommand => ⟨"StartCommand", "start_command", .optional .oneWord,
      ["Optional command name used to launch the application."]⟩
  | primeCategory => ⟨"PrimeCategory", "prime_category", .optional .oneWord,
      ["Optional main desktop menu category."]⟩
  | metaFile => ⟨"MetaFile", "meta_file", .path,
      ["Optional AppStream metadata file. Blank for the default; NONE for none."]⟩
  | iconFiles => ⟨"IconFiles", "icon_files", .paths,
      ["Optional icon files, one per line."]⟩
  | dotnetProjectPath => ⟨"DotnetProjectPath", "project_path", .path,
      ["Optional project or solution to publish."]⟩
  | dotnetPublishArgs => ⟨"DotnetPublishArgs", "publish_args", .optional .safe,
      ["Optional publish arguments. Macros may be used."]⟩
  | dotnetPostPublish => ⟨"DotnetPostPublish", "post_publish", .path,
      ["Optional script run after publish."]⟩
  | dotnetPostPublishOnWindows => ⟨"DotnetPostPublishOnWindows", "post_publish_on_windows", .path,
      ["Optional script run after publish on Windows."]⟩
  | packageName => ⟨"PackageName", "package_name", .optional .strict,
      ["Optional package name. Letters, digits, '-', '+' and '.' only."]⟩
  | outputDirectory => ⟨"OutputDirectory", "output_directory", .directory defaultOutputDirectory,
      ["Output directory for packages."]⟩
  | appImageArgs => ⟨"AppImageArgs", "args", .optional .safe,
      ["Optional additional appimagetool arguments."]⟩
  | appImageVersionOutput => ⟨"AppImageVersionOutput", "version_output", .flag false,
      ["Include the version in the output file name."]⟩
  | flatpakPlatformRuntime => ⟨"FlatpakPlatformRuntime", "platform_runtime",
      .defaulted .oneWord "org.freedesktop.Platform".toList, ["Flatpak platform runtime."]⟩
  | flatpakPlatformSdk => ⟨"FlatpakPlatformSdk", "platform_sdk",
      .defaulted .oneWord "org.freedesktop.Sdk".toList, ["Flatpak platform SDK."]⟩
  | flatpakPlatformVersion => ⟨"FlatpakPlatformVersion", "platform_version",
      .defaulted .oneWord "23.08".toList, ["Flatpak platform version."]⟩
  | flatpakFinishArgs => ⟨"FlatpakFinishArgs", "finish_args", .items ⟨['-', '-'], ['=']⟩,
      ["Finish arguments in the form --name=value, one per line."]⟩
  | flatpakBuilderArgs => ⟨"FlatpakBuilderArgs", "builder_args", .items ⟨['-', '-'], []⟩,
      ["Additional flatpak-builder arguments, one per line."]⟩
  | rpmAutoReq => ⟨"RpmAutoReq", "auto_req", .flag false,
      ["Let rpmbuild detect requirements automatically."]⟩
  | rpmAutoProv => ⟨"RpmAutoProv", "auto_prov", .flag true,
      ["Let rpmbuild detect provisions automatically."]⟩
  | rpmRequires => ⟨"RpmRequires", "requires", .items anyItem,
      ["Package requirements, one per line."]⟩
  | debianRecommends => ⟨"DebianRecommends", "recommends", .items anyItem,
      ["Recommended packages, one per line."]⟩
  | setupGroupName => ⟨"SetupGroupName", "group_name", .optional .safe,
      ["Optional start menu group name."]⟩
  | setupAdminInstall => ⟨"SetupAdminInstall", "admin_install", .flag false,
      ["Install for all users (requires admin)."]⟩
  | setupCommandPrompt => ⟨"SetupCommandPrompt", "command_prompt", .optional .safe,
      ["Optional title of a start menu command prompt entry."]⟩
  | setupMinWindowsVersion => ⟨"SetupMinWindowsVersion", "min_windows_version",
      .defaulted .oneWord "10".toList, ["Minimum Windows version."]⟩
  | setupSignTool => ⟨"SetupSignTool", "sign_tool", .optional .safe,
      ["Optional signing tool command."]⟩
  | setupSuffixOutput => ⟨"SetupSuffixOutput", "suffix_output", .optional .oneWord,
      ["Optional suffix for the installer file name."]⟩
  | setupVersionOutput => ⟨"SetupVersionOutput", "version_output", .flag false,
      ["Include the version in the installer file name."]⟩

def key (s : Setting) : Text := s.declaration.key.toList

abbrev kind (s : Setting) : Kind := s.declaration.kind

abbrev Value (s : Setting) : Type := s.kind.Value

end Setting

namespace Section

def all : List Section :=
  [app, publisher, desktop, dotnet, output, appimage, flatpak, rpm, debian, setup]

/-- The name of the section's object. -/
def member : Section → String
  | app => "app"
  | publisher => "publisher"
  | desktop => "desktop"
  | dotnet => "dotnet"
  | output => "output"
  | appimage => "appimage"
  | flatpak => "flatpak"
  | rpm => "rpm"
  | debian => "debian"
  | setup => "setup"

def title : Section → String
  | app => "APP PREAMBLE"
  | publisher => "PUBLISHER"
  | desktop => "DESKTOP INTEGRATION"
  | dotnet => "DOTNET PUBLISH"
  | output => "PACKAGE OUTPUT"
  | appimage => "APPIMAGE OPTIONS"
  | flatpak => "FLATPAK OPTIONS"
  | rpm => "RPM OPTIONS"
  | debian => "DEBIAN OPTIONS"
  | setup => "WINDOWS SETUP OPTIONS"

def settings : Section → List Setting
  | app => [.appBaseName, .appFriendlyName, .appId, .appVersionRelease, .appShortSummary,
      .appDescription, .appLicenseId, .appLicenseFile, .appChangeFile]
  | publisher => [.publisherName, .publisherId, .publisherCopyright, .publisherLinkName,
      .publisherLinkUrl, .publisherEmail]
  | desktop => [.desktopNoDisplay, .desktopTerminal, .desktopFile, .startCommand, .primeCategory,
      .metaFile, .iconFiles]
  | dotnet => [.dotnetProjectPath, .dotnetPublishArgs, .dotnetPostPublish,
      .dotnetPostPublishOnWindows]
  | output => [.packageName, .outputDirectory]
  | appimage => [.appImageArgs, .appImageVersionOutput]
  | flatpak => [.flatpakPlatformRuntime, .flatpakPlatformSdk, .flatpakPlatformVersion,
      .flatpakFinishArgs, .flatpakBuilderArgs]
  | rpm => [.rpmAutoReq, .rpmAutoProv, .rpmRequires]
  | debian => [.debianRecommends]
  | setup => [.setupGroupName, .setupAdminInstall, .setupCommandPrompt, .setupMinWindowsVersion,
      .setupSignTool, .setupSuffixOutput, .setupVersionOutput]

end Section

namespace Setting

/-- Every setting, in the order of declaration. -/
def all : List Setting := Section.all.flatMap Section.settings

theorem mem_all (s : Setting) : s ∈ all := by cases s <;> decide

theorem nodup_all : all.Nodup := by decide

end Setting

end Packaging
