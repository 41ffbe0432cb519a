import Packaging.Descriptor.Write

/-! The descriptor that a new project starts from. -/

namespace Packaging.Descriptor

def sampleLines : List String :=
  ["AppBaseName = HelloWorld",
   "AppFriendlyName = Hello World",
   "AppId = com.example.helloworld",
   "AppVersionRelease = 1.0.0[1]",
   "AppShortSummary = A HelloWorld application",
   "AppDescription = \"\"\"",
   "    HelloWorld is a demonstration application.",
   "",
   "    It is the starting point for a new project.",
   "\"\"\"",
   "AppLicenseId = MIT",
   "PublisherName = The Hello World Team",
   "PublisherCopyright = Copyright (C) Hello World Team",
   "PublisherLinkName = Home Page",
   "PublisherLinkUrl = https://example.com",
   "DesktopTerminal = false",
   "PrimeCategory = Utility",
   "IconFiles = \"\"\"",
   "    Deploy/HelloWorld.16x16.png",
   "    Deploy/HelloWorld.svg",
   "\"\"\"",
   "DotnetProjectPath = HelloWorld.csproj",
   "DotnetPublishArgs = -p:Version=$\x7bAPP_VERSION\x7d --self-contained true",
   "FlatpakFinishArgs = \"\"\"",
   "    --socket=wayland",
   "    --socket=x11",
   "    --filesystem=host",
   "    --share=network",
   "\"\"\"",
   "RpmRequires = \"\"\"",
   "    krb5-libs",
   "    libicu",
   "    openssl-libs",
   "    zlib",
   "\"\"\"",
   "DebianRecommends = \"\"\"",
   "    libc6",
   "    libgcc1",
   "    libssl3",
   "    zlib1g",
   "\"\"\"",
   "SetupCommandPrompt = Command Prompt"]

def sample : Except Fault Descriptor :=
  let name := "config".toList
  match Document.ofLines name (sampleLines.map String.toList) with
  | .error e => .error (.line name e)
  | .ok doc => ofDocument doc ⟨[]⟩ .off

end Packaging.Descriptor
