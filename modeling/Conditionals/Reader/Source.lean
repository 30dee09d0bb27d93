/-
Conditionals.Reader.Source — reading a file into blocks.

* `LineSource` — the lines of a file as they arrive, and whether it has
  been closed;
* `LineSource.read` — reads a source to its end and leaves it open;
* `LineSource.readBlocks` — reads a source and closes it, whatever comes
  of it.
-/
import Conditionals.Reader.Session

namespace Conditionals

/-- The lines of a file as they arrive. -/
structure LineSource where
  name : Option String
  lines : List String
  /-- What happens behind the last line, if it is not the end of the file. -/
  fault : Option SourceFault
  closed : Bool

namespace LineSource

/-- Lines that arrive without fault. -/
def ofLines (name : Option String) (lines : List String) : LineSource :=
  ⟨name, lines, none, false⟩

/-- The source with a fault in the place of the line at an index, if there is such a line. -/
def failingAt (source : LineSource) (index : Nat) : LineSource :=
  if index < source.lines.length then
    { source with lines := source.lines.take index, fault := some .unreadable }
  else source

/-- The source after it has been closed. -/
def close (source : LineSource) : LineSource :=
  { source with closed := true }

end LineSource

/-- What comes of reading a source. -/
structure Reading where
  /-- The outermost blocks. -/
  result : Except ReadError (List Block)
  /-- The session at its end, with its reports and its cache. -/
  session : Session
  source : LineSource

namespace LineSource

/-- Reads the lines and then meets the end of the source. -/
def readAll (source : LineSource) (s : Session) : Except ReadError (List Block) × Session :=
  match s.readLines 1 source.lines with
  | (.error e, s) => (.error e, s)
  | (.ok (), s) =>
    match source.fault with
    | some fault => (.error (.source fault), s)
    | none => s.finish

/-- Reads a source to its end. The blocks belong to `path`, or to the name of the source if there is
none. -/
def read (source : LineSource) (path : Option String) (cache : Cache) : Reading :=
  let (result, session) := source.readAll (.start (path <|> source.name) cache)
  ⟨result, session, source⟩

/-- Reads a source and closes it. -/
def readAndClose (source : LineSource) (path : Option String) (cache : Cache) : Reading :=
  let reading := source.read path cache
  { reading with source := reading.source.close }

/-- Reads a source into its outermost blocks and closes it. -/
def readBlocks (source : LineSource) (path : Option String) : Reading :=
  source.readAndClose path .empty

end LineSource

end Conditionals
