/-
Conditionals.Disk.Basic — files and folders by their names.

The parts of a name stand between slashes and lead from the top of the
disk through folders to the last part. `.` is the folder one is in, `..`
the one above it, and above the top is the top itself.

* `Disk.locate` — where a name leads;
* `Disk.find` — what stands under a name;
* `Disk.makeFile`, `Disk.makeFolder` — put something under a name.
-/
namespace Conditionals

/-! ## Disks -/

/-- What stands under a name. -/
inductive DiskEntry where
  | folder
  | file (bytes : List UInt8)
  deriving DecidableEq, Repr

/-- A disk: its files and folders, each by the names on the way down to it. The top is always
there and is not listed. -/
structure Disk where
  entries : List (List String × DiskEntry)
  deriving DecidableEq, Repr

/-- Why nothing can be done under a name. -/
inductive AccessFault where
  | missing
  /-- There is a folder where a file is wanted. -/
  | folder
  /-- There is a file where a folder is wanted. -/
  | notAFolder
  | taken
  | tooLong
  | nullByte
  deriving DecidableEq, Repr

/-- The fault in words, if it has any. -/
def AccessFault.message? : AccessFault → Option String
  | nullByte => some "embedded null byte"
  | _ => none

namespace Disk

/-- A disk without files and folders. -/
def empty : Disk :=
  ⟨[]⟩

/-- What is at the end of a way down. -/
def lookup (d : Disk) (way : List String) : Option DiskEntry :=
  d.entries.lookup way

/-- Puts something at the end of a way down. -/
def insert (d : Disk) (way : List String) (e : DiskEntry) : Disk :=
  ⟨(way, e) :: d.entries⟩

theorem lookup_insert (d : Disk) (way : List String) (e : DiskEntry) :
    (d.insert way e).lookup way = some e := by
  simp [lookup, insert]

/-! ## Names -/

/-- How many bytes a part of a name may have. -/
def maxPart : Nat := 255

/-- How many bytes a name may have. -/
def maxName : Nat := 4095

/-- The folder that the parts of a name lead to, from one that is there. -/
def walk (d : Disk) (way : List String) : List String → Except AccessFault (List String)
  | [] => .ok way
  | part :: parts =>
    if part = "" ∨ part = "." then d.walk way parts
    else if part = ".." then d.walk way.dropLast parts
    else if maxPart < part.utf8ByteSize then .error .tooLong
    else
      match d.lookup (way ++ [part]) with
      | some .folder => d.walk (way ++ [part]) parts
      | some (.file _) => .error .notAFolder
      | none => .error .missing

/-- Where a name leads. -/
inductive Location where
  /-- To a folder that is surely there. -/
  | here
  /-- To the last part of the name, in a folder that is there. `slash` tells whether a slash
  follows. -/
  | inside (above : List String) (part : String) (slash : Bool)

/-- Where a name leads. -/
def locate (d : Disk) (name : String) : Except AccessFault Location :=
  if name.toList.contains '\x00' then .error .nullByte
  else if maxName < name.utf8ByteSize then .error .tooLong
  else if name = "" then .error .missing
  else
    let parts := (name.splitToList (· = '/')).reverse
    match parts.dropWhile (· = "") with
    | [] => .ok .here
    | part :: above => do
      let way ← d.walk [] above.reverse
      if part = "." ∨ part = ".." then return .here
      else return .inside way part (parts.head? = some "")

/-! ## Files and folders -/

/-- What stands under a name. -/
def find (d : Disk) (name : String) : Except AccessFault DiskEntry := do
  match ← d.locate name with
  | .here => .ok .folder
  | .inside above part slash =>
    if maxPart < part.utf8ByteSize then .error .tooLong
    else
      match d.lookup (above ++ [part]), slash with
      | none, _ => .error .missing
      | some (.file _), true => .error .notAFolder
      | some e, _ => .ok e

/-- Puts a file under a name, in the place of the file that stands there. -/
def makeFile (d : Disk) (name : String) (bytes : List UInt8) : Except AccessFault Disk := do
  match ← d.locate name with
  | .here => .error .folder
  | .inside _ _ true => .error .folder
  | .inside above part false =>
    if maxPart < part.utf8ByteSize then .error .tooLong
    else if d.lookup (above ++ [part]) = some .folder then .error .folder
    else .ok (d.insert (above ++ [part]) (.file bytes))

/-- Puts an empty folder under a name. -/
def makeFolder (d : Disk) (name : String) : Except AccessFault Disk := do
  match ← d.locate name with
  | .here => .error .taken
  | .inside above part _ =>
    if maxPart < part.utf8ByteSize then .error .tooLong
    else if (d.lookup (above ++ [part])).isSome then .error .taken
    else .ok (d.insert (above ++ [part]) .folder)

end Disk

end Conditionals
