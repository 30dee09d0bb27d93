/-
Conditionals.Reader.Session — reading lines into blocks.

A session holds the blocks that are open, the innermost first, the
outermost blocks that are closed, the atoms met and the reports made.

* `Session.openBlock`, `Session.closeBlock` — the two steps that change
  it. A step that fails changes nothing but the cache of atoms;
* `Session.readLine`, `Session.readLines` — the step that a line asks for;
* `Session.finish` — the blocks of a file whose lines have been read.
-/
import Conditionals.Block.Basic
import Conditionals.Condition.Parser
import Conditionals.Reader.Error
import Conditionals.Reader.Log
import Conditionals.Sequence

namespace Conditionals

/-! ## Open blocks -/

/-- A block whose last line has not been read. -/
structure OpenBlock where
  startLine : Int
  path : Option String
  condition : Condition
  presence : Condition
  /-- The closed blocks inside, in the order of the file. -/
  children : List Block

namespace OpenBlock

/-- Adds a block inside, behind the others. -/
def addChild (b : OpenBlock) (child : Block) : OpenBlock :=
  { b with children := b.children ++ [child] }

/-- The block with its last line. -/
def close (b : OpenBlock) (endLine : Int) : Block :=
  ⟨b.startLine, endLine, b.path, b.condition, b.presence, b.children⟩

end OpenBlock

/-! ## Sessions -/

/-- What reading a file has come to. -/
structure Session where
  /-- The file that the blocks are read from. -/
  path : Option String
  /-- The open blocks, the innermost first. -/
  nesting : List OpenBlock
  /-- The closed outermost blocks, in the order of the file. -/
  blocks : List Block
  cache : Cache
  /-- The reports made, in order. -/
  log : List LogEntry

namespace Session

/-- No line has been read. -/
def start (path : Option String) (cache : Cache) : Session :=
  ⟨path, [], [], cache, []⟩

/-- Makes a report. -/
def report (s : Session) (entry : LogEntry) : Session :=
  { s with log := s.log ++ [entry] }

/-- The presence condition of a block opened now: its condition, under that of the innermost open
block. -/
def presenceOf (s : Session) (condition : Condition) : Condition :=
  match s.nesting with
  | [] => condition
  | b :: _ => .conj b.presence condition

/-- Opens a block with the condition that a text says. -/
def openBlock (s : Session) (text : String) (line : Int) : Except ReadError Unit × Session :=
  match Condition.parseWith s.cache text with
  | (.error cause, cache) => (.error (.malformed cause line), { s with cache })
  | (.ok formula, cache) =>
    let condition := formula.map Interned.atom
    let opened : OpenBlock := ⟨line, s.path, condition, s.presenceOf condition, []⟩
    (.ok (), { s with nesting := opened :: s.nesting, cache }.report (.opening line condition))

/-- Puts a closed block inside the innermost open one, or behind the outermost ones. -/
def place (s : Session) (b : Block) : Session :=
  match s.nesting with
  | [] => { s with blocks := s.blocks ++ [b] }
  | around :: outer => { s with nesting := around.addChild b :: outer }

/-- Closes the innermost open block. -/
def closeBlock (s : Session) (line : Int) : Except ReadError Unit × Session :=
  match s.nesting with
  | [] => (.error (.unbalanced line), s)
  | b :: outer =>
    let s := s.report (.closing line b.startLine)
    (.ok (), { s with nesting := outer }.place (b.close line))

/-- The open block at a place, the outermost first; negative places count from the innermost. -/
def openAt? (s : Session) (place : Int) : Option OpenBlock :=
  Sequence.item? s.nesting.reverse place

/-! ## Lines -/

/-- Reads a directive. -/
def readDirective (s : Session) (line : Int) (d : Directive) (payload : String) :
    Except ReadError Unit × Session :=
  match d with
  | .ifDefined => s.openBlock ("defined(" ++ payload ++ ")") line
  | .ifNotDefined => s.openBlock ("!defined(" ++ payload ++ ")") line
  | .ifTrue => s.openBlock payload line
  | .endIf => s.closeBlock line
  | .elseIf => (.error (.unsupported d line), s)
  | .otherwise => (.error (.unsupported d line), s)

/-- Reads a line. -/
def readLine (s : Session) (line : Int) (text : String) : Except ReadError Unit × Session :=
  match Directive.classify text with
  | none => (.ok (), s)
  | some (d, payload) => s.readDirective line d payload

/-- Reads lines up to the first one that cannot be read; `line` is the number of the first. -/
def readLines (s : Session) (line : Int) : List String → Except ReadError Unit × Session
  | [] => (.ok (), s)
  | text :: rest =>
    match s.readLine line text with
    | (.error e, s) => (.error e, s)
    | (.ok (), s) => s.readLines (line + 1) rest

/-- The outermost blocks, if none is open. -/
def finish (s : Session) : Except ReadError (List Block) × Session :=
  match s.nesting with
  | b :: _ => (.error (.unclosed b.startLine), s)
  | [] => (.ok s.blocks, s.report (.found s.blocks.length s.path))

end Session

end Conditionals
