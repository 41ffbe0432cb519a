/-! Text as the list of its characters, what counts as blank, and the ways text is cut apart.
Cutting at a character never loses any: `List.intercalate` puts the pieces together again. -/

namespace Packaging

abbrev Text := List Char

namespace Text

/-- The characters with the White_Space property. -/
def isBlank (c : Char) : Bool :=
  let n := c.toNat
  (9 ≤ n && n ≤ 13) || n == 0x20 || n == 0x85 || n == 0xA0 || n == 0x1680 ||
    (0x2000 ≤ n && n ≤ 0x200A) || n == 0x2028 || n == 0x2029 || n == 0x202F || n == 0x205F ||
    n == 0x3000

/-- The C0 and C1 control characters and U+007F. -/
def isControl (c : Char) : Bool :=
  c.toNat < 0x20 || (0x7F ≤ c.toNat && c.toNat < 0xA0)

def trimStart (t : Text) : Text := t.dropWhile isBlank

def trimEnd (t : Text) : Text := (t.reverse.dropWhile isBlank).reverse

def trim (t : Text) : Text := trimEnd (trimStart t)

/-- The pieces between the characters that `p` holds of, empty ones included. -/
def cutAt (p : Char → Bool) : Text → List Text
  | [] => [[]]
  | c :: r =>
    if p c then [] :: cutAt p r
    else match cutAt p r with
      | [] => [[c]]
      | w :: ws => (c :: w) :: ws

/-- The maximal runs without a blank. -/
def words (t : Text) : List Text := (cutAt isBlank t).filter (!·.isEmpty)

/-- The lines of a text. A line feed ends a line and takes one carriage return before it along;
what follows the last line feed is a line if it is not empty. -/
def lines : Text → List Text
  | [] => []
  | c :: r =>
    if c = '\n' then [] :: lines r
    else if c = '\r' && r.head? == some '\n' then lines r
    else match lines r with
      | [] => [[c]]
      | l :: ls => (c :: l) :: ls

def unlines (ls : List Text) : Text := List.intercalate ['\n'] ls

/-- What stands before the first `c`, and what after it. -/
def splitFirst? (c : Char) : Text → Option (Text × Text)
  | [] => none
  | d :: r => if d = c then some ([], r) else (splitFirst? c r).map fun p => (d :: p.1, p.2)

/-- What stands before the first occurrence of `mark`. -/
def before? (mark : Text) : Text → Option Text
  | [] => if mark.isEmpty then some [] else none
  | c :: r =>
    if mark.isPrefixOf (c :: r) then some [] else (before? mark r).map (c :: ·)

def hasPart (part t : Text) : Bool := (before? part t).isSome

/-- What follows `start`, if the text starts with it. -/
def after? (start t : Text) : Option Text :=
  if start.isPrefixOf t then some (t.drop start.length) else none

/-- Equality up to the case of the ASCII letters. -/
def sameLetters (a b : Text) : Bool := a.map Char.toLower == b.map Char.toLower

/-- The order of dictionaries, by code points. -/
def le : Text → Text → Bool
  | [], _ => true
  | _ :: _, [] => false
  | a :: s, b :: t => a.toNat < b.toNat || (a == b && le s t)

def ofNat (n : Nat) : Text := Nat.toDigits 10 n

/-- At least `width` digits, with zeros in front. -/
def padded (width n : Nat) : Text :=
  List.replicate (width - (ofNat n).length) '0' ++ ofNat n

/-- The length in UTF-8. -/
def byteLength (t : Text) : Nat := t.foldr (fun c n => c.utf8Size + n) 0

def ofBool (b : Bool) : Text := if b then "true".toList else "false".toList

end Text

end Packaging
