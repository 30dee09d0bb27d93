/-
Conditionals.Condition.Parser — from a text to a condition.

A condition is read token by token, from left to right. `Parser` holds
what has been read: `Pending`, the operands and negations that wait for
more in the innermost pair of parentheses; the same for each pair around
it; and `Mode`, what may come next. Conjunction binds more tightly than
disjunction, negation most tightly, and operands of one connective are
grouped to the left.

* `Parser.step` — reads one token;
* `Parser.finish` — the condition read, if the text may end;
* `Condition.parseWith` — reads a whole text and keeps its atoms in a
  cache, also those met before a fault;
* `Condition.parse` — reads a whole text.
-/
import Conditionals.Condition.Cache
import Conditionals.Condition.Error
import Conditionals.Formula.Basic
import Conditionals.Token.Lexer

namespace Conditionals

/-! ## What has been read -/

/-- What waits for an operand inside one pair of parentheses. -/
structure Pending where
  /-- The left operand of a disjunction. -/
  disjunct : Option (Formula Interned)
  /-- The left operand of a conjunction. -/
  conjunct : Option (Formula Interned)
  /-- How many negations stand before the operand. -/
  negations : Nat
  deriving DecidableEq, Repr

namespace Pending

/-- Nothing waits. -/
def start : Pending :=
  ⟨none, none, 0⟩

/-- Joins an operand to the left one, if there is one. -/
def joinLeft (op : Connective) : Option (Formula Interned) → Formula Interned → Formula Interned
  | none, f => f
  | some g, f => .join op g f

/-- An operand under the negations before it. -/
def negate : Nat → Formula Interned → Formula Interned
  | 0, f => f
  | n + 1, f => .neg (negate n f)

/-- The conjunction that ends with an operand. -/
def conjunction (p : Pending) (f : Formula Interned) : Formula Interned :=
  joinLeft .conj p.conjunct f

/-- The disjunction that ends with an operand. -/
def disjunction (p : Pending) (f : Formula Interned) : Formula Interned :=
  joinLeft .disj p.disjunct (p.conjunction f)

/-- What waits behind an operand and a connective. -/
def joined (p : Pending) (f : Formula Interned) : Connective → Pending
  | .conj => ⟨p.disjunct, some (p.conjunction f), 0⟩
  | .disj => ⟨some (p.disjunction f), none, 0⟩

end Pending

/-- What may come next. -/
inductive Mode where
  /-- An operand. -/
  | operand
  /-- A name, or the parenthesis before one: the word that asks for a definition was read. -/
  | keyword
  /-- A name: the word and an opening parenthesis were read. -/
  | opened
  /-- The parenthesis that closes behind a name. -/
  | named (name : String)
  /-- A connective, a closing parenthesis or the end: an operand was read. -/
  | value (f : Formula Interned)
  deriving DecidableEq, Repr

/-- What has been read of a condition. -/
structure Parser where
  /-- What waits in the innermost pair of parentheses. -/
  pending : Pending
  /-- What waits around it, the nearest first. -/
  outer : List Pending
  mode : Mode
  deriving DecidableEq, Repr

namespace Parser

open SyntaxError (Cause)

/-! ## Reading tokens -/

/-- Nothing has been read. -/
def start : Parser :=
  ⟨.start, [], .operand⟩

/-- Goes on behind an operand. -/
def complete (p : Parser) (f : Formula Interned) : Parser :=
  { p with mode := .value (Pending.negate p.pending.negations f) }

/-- Goes on behind an operand that is an atom. -/
def completeAtom (p : Parser) (cache : Cache) (a : Atom) : Parser × Cache :=
  let (copy, cache) := cache.intern a
  (p.complete (.atom copy), cache)

/-- Reads a token where an operand may begin. -/
def stepOperand (p : Parser) (cache : Cache) : Lexeme → Except Cause (Parser × Cache)
  | .identifier "defined" => .ok ({ p with mode := .keyword }, cache)
  | .identifier "true" => .ok (p.complete (.const true), cache)
  | .identifier "false" => .ok (p.complete (.const false), cache)
  | .identifier name => .ok (p.completeAtom cache (.bare name))
  | .number numeral => .ok (p.complete (.const (Numeral.isNonzero numeral)), cache)
  | .symbol .negation =>
    .ok ({ p with pending := { p.pending with negations := p.pending.negations + 1 } }, cache)
  | .symbol .opening => .ok (⟨.start, p.pending :: p.outer, .operand⟩, cache)
  | l => .error (.unexpected l.spelling)

/-- Reads a token behind the word that asks for a definition. -/
def stepKeyword (p : Parser) (cache : Cache) : Lexeme → Except Cause (Parser × Cache)
  | .symbol .opening => .ok ({ p with mode := .opened }, cache)
  | .identifier name => .ok (p.completeAtom cache (.defined name))
  | l => .error (.notAName l.spelling)

/-- Reads a token behind that word and an opening parenthesis. -/
def stepOpened (p : Parser) (cache : Cache) : Lexeme → Except Cause (Parser × Cache)
  | .identifier name => .ok ({ p with mode := .named name }, cache)
  | l => .error (.notAName l.spelling)

/-- Reads a token behind the name in the parentheses. -/
def stepNamed (p : Parser) (cache : Cache) (name : String) :
    Lexeme → Except Cause (Parser × Cache)
  | .symbol .closing => .ok (p.completeAtom cache (.defined name))
  | _ => .error .unclosedDefined

/-- Reads a token behind an operand. -/
def stepValue (p : Parser) (cache : Cache) (f : Formula Interned) (l : Lexeme) :
    Except Cause (Parser × Cache) :=
  match l, p.outer with
  | .symbol .conjunction, outer => .ok (⟨p.pending.joined f .conj, outer, .operand⟩, cache)
  | .symbol .disjunction, outer => .ok (⟨p.pending.joined f .disj, outer, .operand⟩, cache)
  | .symbol .closing, around :: outer =>
    .ok (Parser.complete ⟨around, outer, .operand⟩ (p.pending.disjunction f), cache)
  | l, _ => .error (.unexpected l.spelling)

/-- Reads one token. -/
def step (p : Parser) (cache : Cache) (l : Lexeme) : Except Cause (Parser × Cache) :=
  match p.mode with
  | .operand => p.stepOperand cache l
  | .keyword => p.stepKeyword cache l
  | .opened => p.stepOpened cache l
  | .named name => p.stepNamed cache name l
  | .value f => p.stepValue cache f l

/-- The condition that has been read, if it is complete. -/
def finish (p : Parser) : Except Cause (Formula Interned) :=
  match p.mode, p.outer with
  | .operand, _ => .error .unfinished
  | .keyword, _ => .error .missingName
  | .opened, _ => .error .missingNameInGroup
  | .named _, _ => .error .unclosedDefined
  | .value _, _ :: _ => .error .unclosedGroup
  | .value f, [] => .ok (p.pending.disjunction f)

/-- Reads all tokens of `text` that are left. The cache keeps what it met before a fault. -/
def run (text : String) (p : Parser) (cache : Cache) :
    List Token → Except SyntaxError (Formula Interned) × Cache
  | [] => (p.finish.mapError fun cause => ⟨cause, text, none⟩, cache)
  | t :: ts =>
    match p.step cache t.lexeme with
    | .error cause => (.error ⟨cause, text, some t.position⟩, cache)
    | .ok (p, cache) => run text p cache ts

end Parser

namespace Condition

/-! ## Reading texts -/

/-- The tokens of a text, layout included. -/
def tokens (text : String) : Except SyntaxError (List Token) :=
  let scan := Token.scan text
  if scan.rest.isEmpty then .ok scan.tokens
  else .error ⟨.unrecognized (String.ofList scan.rest), text, some scan.stop⟩

/-- Reads a condition and keeps its atoms in a cache. -/
def parseWith (cache : Cache) (text : String) : Except SyntaxError (Formula Interned) × Cache :=
  match tokens text with
  | .error e => (.error e, cache)
  | .ok ts =>
    match Token.significant ts with
    | [] => (.error ⟨.empty, text, none⟩, cache)
    | t :: ts => Parser.start.run text cache (t :: ts)

/-- Reads a condition. -/
def parse (text : String) : Except SyntaxError Condition :=
  (parseWith .empty text).1.map (·.map Interned.atom)

end Condition

end Conditionals
