import Packaging.Document.Basic
import Packaging.FileTree
import Packaging.Setting

/-! Everything that can go wrong between a settings document and a descriptor, by cause, with the
one message that each cause has. -/

namespace Packaging

/-- Why the value of a setting is refused. -/
inductive SettingFault where
  | missing
  | lineBreak
  | chars (fault : CharFault)
  | itemChars (fault : CharFault) (item : Text)
  | itemStart (item start : Text)
  | itemPart (item part : Text)
  | version (value : Text)
  | flag (value : Text)
  | absent (p : Path)
deriving DecidableEq

def SettingFault.message (s : Setting) : SettingFault → Text
  | .missing => "value required for ".toList ++ s.key
  | .lineBreak => "line breaks not allowed".toList
  | .chars fault => fault.message
  | .itemChars fault item => fault.message ++ " in ".toList ++ item
  | .itemStart item start => "item ".toList ++ item ++ " must start with ".toList ++ start
  | .itemPart item part => "item ".toList ++ item ++ " must contain ".toList ++ part
  | .version value => "expected VERSION or VERSION[RELEASE], got ".toList ++ value
  | .flag value => "must be true or false, got ".toList ++ value
  | .absent p => "path not found: ".toList ++ p.text

inductive Fault where
  | line (document : Text) (error : LineError)
  | setting (s : Setting) (fault : SettingFault)
  | file (fault : FileFault)
deriving DecidableEq

def Fault.message : Fault → Text
  | .line document error =>
    document ++ " line ".toList ++ Text.ofNat error.line ++ ':' :: ' ' :: error.fault.message
  | .setting s fault => "Invalid ".toList ++ s.key ++ ':' :: ' ' :: fault.message s
  | .file fault => "I/O error: ".toList ++ fault.message

end Packaging
