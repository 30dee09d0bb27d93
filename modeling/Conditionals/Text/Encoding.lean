/-
Conditionals.Text.Encoding — from the bytes of a file to its characters.

* `Encoding` — the encodings a file can be read in, `Encoding.named?` finds
  one by its name;
* `Encoding.decode` — the characters of a whole file, or nothing if some
  byte cannot occur where it stands.

Decoding is strict. One fault is kept apart: bytes that end inside a
character, each of them right so far. The characters before it are
delivered, and `Decoded.cut` says that the rest is missing.
-/
namespace Conditionals.Text

/-- How the characters of a file are written as bytes. -/
inductive Encoding where
  /-- One to four bytes a character. -/
  | utf8
  /-- As `utf8`, with an optional mark in front. -/
  | utf8Marked
  /-- Each byte is the character of its number. -/
  | latin1
  /-- As `latin1`, for the bytes below 128 only. -/
  | ascii
  deriving DecidableEq, Repr

/-- The characters that bytes stand for. -/
structure Decoded where
  /-- The complete characters. -/
  chars : List Char
  /-- Whether the bytes end inside a character. -/
  cut : Bool
  deriving DecidableEq, Repr

namespace Decoded

/-- Puts a character in front. -/
def cons (c : Char) (d : Decoded) : Decoded := { d with chars := c :: d.chars }

end Decoded

namespace Encoding

/-! ## UTF-8 -/

/-- What the first byte of a character says: the bits it gives, the number of bytes
that follow, and the least and greatest value of the next one. -/
structure Lead where
  bits : Nat
  owed : Nat
  low : Nat
  high : Nat

/-- The lead that a first byte is, if a character can begin with it. The ranges leave out the
overlong forms and all beyond the last code point. -/
def lead? (b : Nat) : Option Lead :=
  if b < 0x80 then some ⟨b, 0, 0x80, 0xBF⟩
  else if b < 0xC2 then none
  else if b < 0xE0 then some ⟨b - 0xC0, 1, 0x80, 0xBF⟩
  else if b = 0xE0 then some ⟨0, 2, 0xA0, 0xBF⟩
  else if b < 0xF0 then some ⟨b - 0xE0, 2, 0x80, 0xBF⟩
  else if b = 0xF0 then some ⟨0, 3, 0x90, 0xBF⟩
  else if b < 0xF4 then some ⟨b - 0xF0, 3, 0x80, 0xBF⟩
  else if b = 0xF4 then some ⟨4, 3, 0x80, 0x8F⟩
  else none

/-- The character of a code point; a surrogate has none. -/
def scalar? (n : Nat) : Option Char :=
  if n.isValidChar then some (Char.ofNat n) else none

/-- Reads UTF-8 byte by byte: `pending` is the character begun, with its bits so far. A surrogate
is refused at its last byte, so its first two bytes at the end of a file are a character cut off. -/
def decodeUtf8 : (pending : Option Lead) → List UInt8 → Option Decoded
  | none, [] => some ⟨[], false⟩
  | some _, [] => some ⟨[], true⟩
  | none, b :: rest => do
    let lead ← lead? b.toNat
    if lead.owed = 0 then
      let c ← scalar? lead.bits
      return (← decodeUtf8 none rest).cons c
    else decodeUtf8 (some lead) rest
  | some lead, b :: rest => do
    let n := b.toNat
    guard (lead.low ≤ n ∧ n ≤ lead.high)
    let bits := lead.bits * 64 + (n - 0x80)
    if lead.owed ≤ 1 then
      let c ← scalar? bits
      return (← decodeUtf8 none rest).cons c
    else decodeUtf8 (some ⟨bits, lead.owed - 1, 0x80, 0xBF⟩) rest

/-- The three bytes of the mark that may stand in front of `utf8Marked`. -/
def mark : List UInt8 := [0xEF, 0xBB, 0xBF]

/-- Reads UTF-8 behind an optional mark. Too few bytes to tell whether they begin with the
mark are no text at all. -/
def decodeUtf8Marked (bytes : List UInt8) : Option Decoded :=
  if mark.isPrefixOf bytes then decodeUtf8 none (bytes.drop mark.length)
  else if bytes.isPrefixOf mark then some ⟨[], false⟩
  else decodeUtf8 none bytes

/-! ## All encodings -/

/-- The characters of a file, or nothing if a byte cannot occur where it stands. -/
def decode : Encoding → List UInt8 → Option Decoded
  | utf8, bytes => decodeUtf8 none bytes
  | utf8Marked, bytes => decodeUtf8Marked bytes
  | latin1, bytes => some ⟨bytes.map fun b => Char.ofNat b.toNat, false⟩
  | ascii, bytes =>
    if bytes.all (· < 0x80) then some ⟨bytes.map fun b => Char.ofNat b.toNat, false⟩ else none

/-- The name of an encoding in the spelling that all its variants share: small letters, and one
low line between its parts, whatever stands there instead of letters, digits and full stops. -/
def canonicalName (name : String) : String :=
  let parts := name.splitToList fun c => !(c.isAlphanum || c = '.')
  String.intercalate "_" ((parts.filter (· ≠ "")).map String.toLower)

/-- The name that stands for an encoding before all others. -/
def properName : Encoding → String
  | utf8 => "utf_8"
  | utf8Marked => "utf_8_sig"
  | latin1 => "latin_1"
  | ascii => "ascii"

/-- The other names of an encoding. -/
def aliases : Encoding → List String
  | utf8 => ["utf8", "u8", "utf", "utf8_ucs2", "utf8_ucs4", "cp65001"]
  | utf8Marked => []
  | latin1 =>
    ["latin1", "latin", "l1", "iso_8859_1", "iso8859_1", "iso8859", "8859", "cp819",
      "csisolatin1", "ibm819", "iso_8859_1_1987", "iso_ir_100"]
  | ascii =>
    ["us_ascii", "us", "646", "cp367", "csascii", "ibm367", "iso646_us", "iso_ir_6",
      "ansi_x3.4_1968", "ansi_x3_4_1968", "ansi_x3.4_1986", "iso_646.irv_1991"]

/-- Puts low lines for the full stops of a name. -/
def withoutStops (name : String) : String :=
  name.map fun c => if c = '.' then '_' else c

/-- Whether an encoding has a name, given in its canonical spelling. Full stops may stand for low
lines in an alias, but not in the proper name. -/
def isNamed (encoding : Encoding) (name : String) : Bool :=
  name = encoding.properName || encoding.aliases.contains name ||
    encoding.aliases.contains (withoutStops name)

/-- The encoding of a name, if there is one. -/
def named? (name : String) : Option Encoding :=
  [utf8, utf8Marked, latin1, ascii].find? fun encoding => encoding.isNamed (canonicalName name)

end Encoding

end Conditionals.Text
