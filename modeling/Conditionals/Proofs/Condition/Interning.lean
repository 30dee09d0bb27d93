/-
Conditionals.Proofs.Condition.Interning — copies stay in the cache they come
from.

A cache keeps a copy if it has the copy's atom under the copy's number
(`Cache.Keeps`). Caches only grow at their end, so a copy that is kept once
is kept for good. A state of the parser holds no copies but those of the
state before and the one that its token asked for (`Parser.handsOn_step`).

`Condition.keeps_of_parseWith` is the main statement: the cache that reading
a text leaves keeps all copies of the condition that was read.
-/
import Conditionals.Proofs.Condition.Recognition

namespace Conditionals

/-! ## Copies that a cache keeps -/

namespace Cache

variable {c d : Cache} {x y : Interned}

/-- The cache has the atom of the copy under its number. -/
def Keeps (c : Cache) (x : Interned) : Prop :=
  c.atoms[x.id]? = some x.atom

theorem prefix_insert (c : Cache) (a : Atom) : c.atoms <+: (c.insert a).atoms := by
  unfold insert
  split
  · exact List.prefix_rfl
  · exact List.prefix_append _ _

theorem Keeps.mono (h : c.Keeps x) (hcd : c.atoms <+: d.atoms) : d.Keeps x := by
  obtain ⟨more, hmore⟩ := hcd
  obtain ⟨hlt, -⟩ := List.getElem?_eq_some_iff.1 h
  rw [Keeps, ← hmore, List.getElem?_append_left hlt]
  exact h

/-- A cache keeps one copy of an atom. -/
theorem Keeps.eq_of_atom_eq (hx : c.Keeps x) (hy : c.Keeps y) (h : x.atom = y.atom) : x = y := by
  obtain ⟨hlt, -⟩ := List.getElem?_eq_some_iff.1 hx
  have hid : x.id = y.id := (List.getElem?_inj hlt c.nodup).1 (by rw [hx, hy, h])
  obtain ⟨id, atom⟩ := x
  obtain ⟨id', atom'⟩ := y
  obtain rfl : id = id' := hid
  obtain rfl : atom = atom' := h
  rfl

end Cache

/-! ## Copies that a state of the parser holds -/

def Pending.copies (p : Pending) : List Interned :=
  p.disjunct.toList.flatMap Formula.atoms ++ p.conjunct.toList.flatMap Formula.atoms

def Mode.copies : Mode → List Interned
  | .value f => f.atoms
  | _ => []

/-- The copies that wait for an operand, from the outermost pair of parentheses to the innermost. -/
def Parser.waiting (p : Parser) : List Interned :=
  p.outer.reverse.flatMap Pending.copies ++ p.pending.copies

def Parser.copies (p : Parser) : List Interned :=
  p.waiting ++ p.mode.copies

namespace Pending

theorem atoms_joinLeft (op : Connective) (left : Option (Formula Interned))
    (f : Formula Interned) :
    (joinLeft op left f).atoms = left.toList.flatMap Formula.atoms ++ f.atoms := by
  cases left with
  | none => rfl
  | some g => simp [joinLeft, Formula.atoms]

theorem atoms_negate (n : Nat) (f : Formula Interned) : (negate n f).atoms = f.atoms := by
  induction n with
  | zero => rfl
  | succ n ih => exact ih

theorem atoms_disjunction (p : Pending) (f : Formula Interned) :
    (p.disjunction f).atoms = p.copies ++ f.atoms := by
  rw [disjunction, atoms_joinLeft, conjunction, atoms_joinLeft, copies, List.append_assoc]

theorem copies_joined (p : Pending) (f : Formula Interned) (op : Connective) :
    (p.joined f op).copies = p.copies ++ f.atoms := by
  cases op with
  | conj => simp [joined, copies, conjunction, atoms_joinLeft]
  | disj => simp [joined, copies, atoms_disjunction]

end Pending

namespace Parser

variable {p q : Parser} {c d : Cache} {l : Lexeme}

/-- What a step may do to the copies: the cache grows at its end, and a copy of the state behind the
step is one of the state before it or is kept. -/
def HandsOn (p : Parser) (c : Cache) (q : Parser) (d : Cache) : Prop :=
  c.atoms <+: d.atoms ∧ ∀ x ∈ q.copies, x ∈ p.copies ∨ d.Keeps x

theorem handsOn_of_subset (h : q.copies ⊆ p.copies) : HandsOn p c q c :=
  ⟨List.prefix_rfl, fun _ hx => .inl (h hx)⟩

theorem handsOn_of_waiting (h : q.copies = p.waiting) : HandsOn p c q c := by
  refine handsOn_of_subset ?_
  rw [h]
  exact List.subset_append_left _ _

theorem copies_complete (p : Parser) (f : Formula Interned) :
    (p.complete f).copies = p.waiting ++ f.atoms := by
  simp [complete, copies, waiting, Mode.copies, Pending.atoms_negate]

theorem handsOn_const (p : Parser) (c : Cache) (value : Bool) :
    HandsOn p c (p.complete (.const value)) c :=
  handsOn_of_waiting ((copies_complete p _).trans (List.append_nil _))

theorem handsOn_completeAtom (p : Parser) (c : Cache) (a : Atom) :
    HandsOn p c (p.completeAtom c a).1 (p.completeAtom c a).2 := by
  refine ⟨c.prefix_insert a, fun x hx => ?_⟩
  have hx : x ∈ (p.complete (.atom (c.intern a).1)).copies := hx
  rw [copies_complete, List.mem_append] at hx
  rcases hx with hx | hx
  · exact .inl (List.mem_append_left _ hx)
  · obtain rfl : x = (c.intern a).1 := List.mem_singleton.1 hx
    exact .inr (c.getElem?_intern a)

theorem handsOn_stepOperand (h : p.stepOperand c l = .ok (q, d)) : HandsOn p c q d := by
  unfold stepOperand at h
  split at h
  case h_1 => cases h; exact handsOn_of_waiting (List.append_nil _)
  case h_2 => cases h; exact handsOn_const p c _
  case h_3 => cases h; exact handsOn_const p c _
  case h_4 => cases h; exact handsOn_completeAtom p c _
  case h_5 => cases h; exact handsOn_const p c _
  case h_6 => cases h; exact handsOn_of_subset fun x hx => hx
  case h_7 =>
    cases h
    exact handsOn_of_waiting (by simp [copies, waiting, Mode.copies, Pending.copies, Pending.start])
  case h_8 => cases h

/-- Behind an operand no copy is lost and none is added. -/
theorem copies_stepValue {f : Formula Interned} (hm : p.mode = .value f)
    (h : p.stepValue c f l = .ok (q, d)) : q.copies = p.copies ∧ d = c := by
  unfold stepValue at h
  split at h
  case h_1 =>
    cases h
    simp [copies, waiting, hm, Mode.copies, Pending.copies_joined]
  case h_2 =>
    cases h
    simp [copies, waiting, hm, Mode.copies, Pending.copies_joined]
  case h_3 around outer hout =>
    cases h
    refine ⟨?_, rfl⟩
    rw [copies_complete]
    simp [copies, waiting, hm, hout, Mode.copies, Pending.atoms_disjunction]
  case h_4 => cases h

theorem handsOn_step (h : p.step c l = .ok (q, d)) : HandsOn p c q d := by
  unfold step at h
  split at h
  case h_1 => exact handsOn_stepOperand h
  case h_2 =>
    unfold stepKeyword at h
    split at h
    case h_1 => cases h; exact handsOn_of_waiting (List.append_nil _)
    case h_2 => cases h; exact handsOn_completeAtom p c _
    case h_3 => cases h
  case h_3 =>
    unfold stepOpened at h
    split at h
    case h_1 => cases h; exact handsOn_of_waiting (List.append_nil _)
    case h_2 => cases h
  case h_4 =>
    unfold stepNamed at h
    split at h
    case h_1 => cases h; exact handsOn_completeAtom p c _
    case h_2 => cases h
  case h_5 f hm =>
    obtain ⟨hcopies, rfl⟩ := copies_stepValue hm h
    exact handsOn_of_subset (hcopies ▸ List.Subset.refl _)

/-- The condition that has been read has the copies of the state. -/
theorem atoms_of_finish {f : Formula Interned} (h : p.finish = .ok f) : f.atoms = p.copies := by
  unfold finish at h
  split at h
  case h_6 g hm hout =>
    cases h
    simp [copies, waiting, hm, hout, Mode.copies, Pending.atoms_disjunction]
  all_goals cases h

/-- A run from a state whose copies are kept ends with a condition whose copies are kept. -/
theorem keeps_of_run {text : String} {ts : List Token} (h : ∀ x ∈ p.copies, c.Keeps x) :
    c.atoms <+: (p.run text c ts).2.atoms ∧
      ∀ f, (p.run text c ts).1 = .ok f → ∀ x ∈ f.atoms, (p.run text c ts).2.Keeps x := by
  induction ts generalizing p c with
  | nil =>
    refine ⟨List.prefix_rfl, ?_⟩
    intro f hf x hx
    cases hfinish : p.finish with
    | error cause =>
      rw [run, hfinish] at hf
      cases hf
    | ok g =>
      rw [run, hfinish] at hf
      obtain rfl : g = f := Except.ok.inj hf
      rw [atoms_of_finish hfinish] at hx
      exact h x hx
  | cons t ts ih =>
    rw [run]
    split
    case h_1 =>
      refine ⟨List.prefix_rfl, fun f hf => ?_⟩
      cases hf
    case h_2 q d hs =>
      obtain ⟨hgrows, hcopies⟩ := handsOn_step hs
      have hq : ∀ x ∈ q.copies, d.Keeps x := by
        intro x hx
        rcases hcopies x hx with hp | hd
        · exact (h x hp).mono hgrows
        · exact hd
      obtain ⟨hrest, hkeeps⟩ := ih hq
      exact ⟨hgrows.trans hrest, hkeeps⟩

end Parser

/-! ## Reading texts -/

namespace Condition

/-- Reading a text lets the cache grow at its end, and the cache keeps the copies of what is read. -/
theorem keeps_of_parseWith (cache : Cache) (text : String) :
    cache.atoms <+: (parseWith cache text).2.atoms ∧
      ∀ f, (parseWith cache text).1 = .ok f → ∀ x ∈ f.atoms, (parseWith cache text).2.Keeps x := by
  cases ht : tokens text with
  | error fault =>
    rw [parseWith, ht]
    refine ⟨List.prefix_rfl, fun f hf => ?_⟩
    cases hf
  | ok ts =>
    by_cases hne : Token.significant ts = []
    · rw [parseWith, ht]
      simp only [hne]
      refine ⟨List.prefix_rfl, fun f hf => ?_⟩
      cases hf
    · rw [parseWith_of_tokens ht cache hne]
      exact Parser.keeps_of_run fun x hx => absurd hx List.not_mem_nil

end Condition

end Conditionals
