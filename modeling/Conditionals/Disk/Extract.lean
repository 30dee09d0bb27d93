/-
Conditionals.Disk.Extract — from a file on a disk to its blocks.

A file is opened, decoded as a whole, cut into lines and read. Only a
character that is cut off at the end of the file is noticed late: the
lines before the last one that could still go on are read first.
-/
import Conditionals.Disk.Basic
import Conditionals.Reader.Source
import Conditionals.SourceFile
import Conditionals.Text.Encoding
import Conditionals.Text.Lines

namespace Conditionals

/-! ## Lines of a file -/

/-- Whether more characters may belong to a line: it has no line end, or its carriage return may have
a line feed behind it. -/
def Text.mayGoOn (line : List Char) : Bool :=
  line.getLast? ≠ some '\n'

/-- The lines of a decoded text that are surely complete, if it has been cut. -/
def Text.surelyComplete (lines : List (List Char)) : List (List Char) :=
  match lines.getLast? with
  | some line => if mayGoOn line then lines.dropLast else lines
  | none => lines

/-- The lines of a file as they arrive. -/
def LineSource.ofBytes (name : String) (encoding : Text.Encoding) (bytes : List UInt8) :
    LineSource :=
  match encoding.decode bytes with
  | none => ⟨name, [], some .undecodable, false⟩
  | some decoded =>
    let lines := Text.lines decoded.chars
    if decoded.cut then
      ⟨name, (Text.surelyComplete lines).map String.ofList, some .undecodable, false⟩
    else ⟨name, lines.map String.ofList, none, false⟩

/-! ## Files -/

/-- Why a file cannot be opened. -/
inductive OpenFault where
  | access (fault : AccessFault)
  /-- The name of the encoding has a null character. -/
  | nullCharacter
  | unknownEncoding
  deriving DecidableEq, Repr

/-- The fault in words, if it has any. -/
def OpenFault.message? : OpenFault → Option String
  | access fault => fault.message?
  | nullCharacter => some "embedded null character"
  | unknownEncoding => none

/-- Why the blocks of a file cannot be had. -/
inductive ExtractError where
  | opening (fault : OpenFault)
  | reading (error : ReadError)

namespace Disk

/-- Opens a file. A null character in the name of the encoding is noticed first; whether there is
such an encoding is asked when the file has been found. -/
def openLines (d : Disk) (name encoding : String) : Except OpenFault LineSource :=
  if encoding.toList.contains '\x00' then .error .nullCharacter
  else
    match d.find name with
    | .error fault => .error (.access fault)
    | .ok .folder => .error (.access .folder)
    | .ok (.file bytes) =>
      match Text.Encoding.named? encoding with
      | none => .error .unknownEncoding
      | some encoding => .ok (.ofBytes name encoding bytes)

/-- The blocks of a file on a disk. -/
def extract (d : Disk) (name encoding : String) : Except ExtractError SourceFile :=
  match d.openLines name encoding with
  | .error fault => .error (.opening fault)
  | .ok source =>
    match (source.readBlocks name).result with
    | .error e => .error (.reading e)
    | .ok blocks => .ok ⟨name, blocks⟩

end Disk

end Conditionals
