/-
Conditionals.Proofs.Graph.Evaluation — the value that a fold gives to a node.

* `Dag.evaluate` — the value of a node by plain recursion: the children are
  valued from last to first, then they are combined. The first fault met is
  the outcome;
* `Dag.fold_eq_evaluate` — the fold gives the same value or fault, although
  it combines a node that is met again only once;
* `Dag.Objects` — objects that stand for the nodes of a graph. However they
  are shared, folding them gives the values of the nodes
  (`Dag.Objects.fold_eq`). The places of an unfolded graph are such objects
  (`Dag.foldUnfolded_eq_evaluate`).
-/
import Conditionals.Graph.Unfolding
import Mathlib.Data.List.Forall2
import Std.Data.HashMap.Lemmas

namespace Conditionals

open scoped Conditionals.Graph

/-! ## Successes -/

section success

variable {ε α β : Type} {x : Except ε α} {b : β}

theorem bind_eq_ok_iff {f : α → Except ε β} : x.bind f = .ok b ↔ ∃ a, x = .ok a ∧ f a = .ok b := by
  cases x <;> simp [Except.bind]

theorem map_eq_ok_iff {f : α → β} : x.map f = .ok b ↔ ∃ a, x = .ok a ∧ f a = b := by
  cases x <;> simp [Except.map]

end success

/-! ## Values in order -/

/-- The values of some nodes in order, found from the last node to the first. -/
def valuesFromLast {ι ε ρ : Type} (value : ι → Except ε ρ) : List ι → Except ε (List ρ)
  | [] => .ok []
  | n :: ns => do
    let values ← valuesFromLast value ns
    let first ← value n
    return first :: values

section valuesFromLast

variable {ι κ ε ρ : Type} {value : ι → Except ε ρ}

theorem valuesFromLast_congr {other : ι → Except ε ρ} {ns : List ι}
    (h : ∀ n ∈ ns, value n = other n) : valuesFromLast value ns = valuesFromLast other ns := by
  induction ns with
  | nil => rfl
  | cons n ns ih =>
    rw [valuesFromLast, valuesFromLast, ih fun m hm => h m (List.mem_cons_of_mem _ hm),
      h n List.mem_cons_self]

theorem valuesFromLast_map (read : κ → ι) (ks : List κ) :
    valuesFromLast value (ks.map read) = valuesFromLast (fun k => value (read k)) ks := by
  induction ks with
  | nil => rfl
  | cons k ks ih => rw [List.map_cons, valuesFromLast, valuesFromLast, ih]

/-- The values are found just if each of them is. -/
theorem valuesFromLast_eq_ok_iff {ns : List ι} {values : List ρ} :
    valuesFromLast value ns = .ok values ↔
      List.Forall₂ (fun n v => value n = .ok v) ns values := by
  induction ns generalizing values with
  | nil => cases values <;> simp [valuesFromLast]
  | cons n ns ih =>
    have hcons : valuesFromLast value (n :: ns) =
        (valuesFromLast value ns).bind fun rest => (value n).map (· :: rest) := by
      rw [valuesFromLast]
      cases valuesFromLast value ns with
      | error e => rfl
      | ok rest => cases value n <;> rfl
    simp only [hcons, bind_eq_ok_iff, map_eq_ok_iff, ih]
    constructor
    · rintro ⟨rest, hrest, first, hfirst, rfl⟩
      exact .cons hfirst hrest
    · intro h
      cases h with
      | cons hfirst hrest => exact ⟨_, hrest, _, hfirst, rfl⟩

end valuesFromLast

namespace Dag

/-! ## Plain recursion -/

section evaluate

variable {ι ε ρ : Type} {g : Dag ι ε} {combine : ι → List ρ → Except ε ρ}

theorem isChild_of_children {n c : ι} {cs : List ι} (h : g.children n = .ok cs) (hc : c ∈ cs) :
    Graph.IsChild (childrenOrNil g.children) c n := by
  rw [Graph.IsChild, childrenOrNil, h]
  exact hc

/-- The value of a node, from the values of its children. -/
noncomputable def evaluate (g : Dag ι ε) (combine : ι → List ρ → Except ε ρ) : ι → Except ε ρ :=
  g.acyclic.fix fun n value =>
    match h : g.children n with
    | .error e => .error e
    | .ok cs =>
      (valuesFromLast (fun c => value c.1 (isChild_of_children h c.2)) cs.attach).bind (combine n)

theorem evaluate_eq (g : Dag ι ε) (combine : ι → List ρ → Except ε ρ) (n : ι) :
    g.evaluate combine n =
      (g.children n).bind fun cs => (valuesFromLast (g.evaluate combine) cs).bind (combine n) := by
  have hvalue : ∀ cs, valuesFromLast (g.evaluate combine) cs =
      valuesFromLast (fun c => g.evaluate combine c.1) cs.attach := by
    intro cs
    rw [← valuesFromLast_map Subtype.val, List.attach_map_subtype_val]
  simp only [hvalue]
  rw [evaluate, g.acyclic.fix_eq]
  split
  case h_1 e h => simp only [h]; rfl
  case h_2 cs h => simp only [h]; rfl

end evaluate

/-! ## The walk -/

section walk

variable {ι ε ρ : Type} [BEq ι] [Hashable ι] [LawfulBEq ι] {g : Dag ι ε}
  {combine : ι → List ρ → Except ε ρ} {p q : Progress ι ρ}

/-- All values found so far are right. -/
def Progress.Sound (g : Dag ι ε) (combine : ι → List ρ → Except ε ρ) (p : Progress ι ρ) : Prop :=
  ∀ (n : ι) (v : ρ), p.values[n]? = some v → g.evaluate combine n = .ok v

/-- From one progress to a later one: no value is lost, none is wrong, and some nodes have one. -/
structure Progress.Finds (g : Dag ι ε) (combine : ι → List ρ → Except ε ρ) (p : Progress ι ρ)
    (ns : List ι) (q : Progress ι ρ) : Prop where
  sound : q.Sound g combine
  kept : ∀ n ∈ p.values, n ∈ q.values
  found : ∀ n ∈ ns, n ∈ q.values

/-- What tasks in front of others come to, if they are there to value some nodes: the fault that
valuing these ends with, or a progress that has their values. -/
def Settles (g : Dag ι ε) (combine : ι → List ρ → Except ε ρ) (p : Progress ι ρ)
    (front : List (Task ι)) (ns : List ι) : Prop :=
  ∀ tasks,
    (∃ e, valuesFromLast (g.evaluate combine) ns = .error e ∧
      g.work combine p (front ++ tasks) = .error e) ∨
    ∃ q, p.Finds g combine ns q ∧ g.work combine p (front ++ tasks) = g.work combine q tasks

theorem Progress.sound_start : (start : Progress ι ρ).Sound g combine := by
  intro n v h
  simp [start] at h

/-- Where all children have values, these are the ones to combine. -/
theorem Progress.Sound.valuesFromLast_eq (h : p.Sound g combine) {cs : List ι}
    (hcs : ∀ c ∈ cs, c ∈ p.values) :
    valuesFromLast (g.evaluate combine) cs = .ok (p.valuesOf cs) := by
  induction cs with
  | nil => rfl
  | cons c cs ih =>
    obtain ⟨v, hv⟩ := Option.isSome_iff_exists.1
      (Std.HashMap.isSome_getElem?_iff_mem.2 (hcs c List.mem_cons_self))
    have hrest := ih fun n hn => hcs n (List.mem_cons_of_mem _ hn)
    have hvalues : p.valuesOf (c :: cs) = v :: p.valuesOf cs := by
      rw [valuesOf, List.filterMap_cons, hv, valuesOf]
    rw [valuesFromLast, hrest, h c v hv, hvalues]
    rfl

theorem Progress.Sound.record (h : p.Sound g combine) {n : ι} {v : ρ}
    (hv : g.evaluate combine n = .ok v) : (p.record n v).Sound g combine := by
  intro m w hm
  rw [Progress.record, Std.HashMap.getElem?_insert] at hm
  split at hm
  case isTrue heq =>
    obtain rfl : n = m := eq_of_beq heq
    cases hm
    exact hv
  case isFalse => exact h m w hm

/-- Visits to several nodes settle them, if a visit to each of them does. -/
theorem settles_visits {cs : List ι}
    (hcs : ∀ c ∈ cs, ∀ p : Progress ι ρ, p.Sound g combine → Settles g combine p [.visit c] [c])
    (hp : p.Sound g combine) : Settles g combine p (visits cs) cs := by
  induction cs with
  | nil => exact fun tasks => .inr ⟨p, ⟨hp, fun _ h => h, nofun⟩, rfl⟩
  | cons c cs ih =>
    intro tasks
    -- The first child is visited last, when all others have their values.
    have hfront : visits (c :: cs) ++ tasks = visits cs ++ .visit c :: tasks := by simp [visits]
    rw [hfront, valuesFromLast]
    rcases ih (fun n hn => hcs n (List.mem_cons_of_mem _ hn)) (.visit c :: tasks) with
      ⟨e, he, hwork⟩ | ⟨q, hq, hwork⟩
    · exact .inl ⟨e, by rw [he]; rfl, hwork⟩
    · have hvalues := hq.sound.valuesFromLast_eq hq.found
      rcases hcs c List.mem_cons_self q hq.sound tasks with ⟨e, he, hlast⟩ | ⟨r, hr, hlast⟩
      · refine .inl ⟨e, ?_, hwork.trans hlast⟩
        cases hc : g.evaluate combine c with
        | error e' =>
          rw [valuesFromLast, valuesFromLast, hc] at he
          rw [hvalues]
          exact he
        | ok v =>
          rw [valuesFromLast, valuesFromLast, hc] at he
          cases he
      · refine .inr ⟨r, ⟨hr.sound, fun n hn => hr.kept n (hq.kept n hn), ?_⟩, hwork.trans hlast⟩
        intro n hn
        rcases List.mem_cons.1 hn with rfl | hn
        · exact hr.found n List.mem_cons_self
        · exact hr.kept n (hq.found n hn)

/-- A visit to a node settles it. -/
theorem settles_visit (n : ι) (hp : p.Sound g combine) :
    Settles g combine p [.visit n] [n] := by
  induction n using g.acyclic.induction generalizing p with
  | _ n ih =>
    intro tasks
    have hsingle : ∀ e, g.evaluate combine n = .error e →
        valuesFromLast (g.evaluate combine) [n] = .error e := by
      intro e he
      rw [valuesFromLast, valuesFromLast, he]
      rfl
    rw [List.singleton_append, work]
    split
    case isTrue hmem =>
      -- The node has been met before, and has a value already.
      refine .inr ⟨p, ⟨hp, fun _ h => h, fun m hm => ?_⟩, rfl⟩
      obtain rfl : m = n := List.mem_singleton.1 hm
      exact Std.HashMap.mem_iff_contains.2 hmem
    case isFalse =>
      have heq := g.evaluate_eq combine n
      split
      case h_1 e hchildren =>
        rw [hchildren] at heq
        exact .inl ⟨e, hsingle e heq, rfl⟩
      case h_2 cs hchildren =>
        rw [hchildren, Except.bind] at heq
        have hcs := settles_visits (fun c hc q hq => ih c (isChild_of_children hchildren hc) hq) hp
        rcases hcs (.combine n cs :: tasks) with ⟨e, he, hwork⟩ | ⟨q, hq, hwork⟩
        · rw [he] at heq
          exact .inl ⟨e, hsingle e heq, hwork⟩
        · rw [hq.sound.valuesFromLast_eq hq.found] at heq
          rw [hwork, work]
          cases hcombine : combine n (q.valuesOf cs) with
          | error e => exact .inl ⟨e, hsingle e (heq.trans hcombine), rfl⟩
          | ok v =>
            refine .inr ⟨q.record n v, ⟨hq.sound.record (heq.trans hcombine), ?_, ?_⟩, rfl⟩
            · intro m hm
              exact Std.HashMap.mem_insert.2 (.inr (hq.kept m hm))
            · intro m hm
              obtain rfl : m = n := List.mem_singleton.1 hm
              exact Std.HashMap.mem_insert_self

/-- The fold of a graph gives a node its value, or ends with the fault that valuing it ends with. -/
theorem fold_eq_evaluate (g : Dag ι ε) (combine : ι → List ρ → Except ε ρ) (root : ι) :
    (g.fold combine root).map (·.value) = g.evaluate combine root := by
  rw [evaluate_eq, fold]
  cases hchildren : g.children root with
  | error e => rfl
  | ok cs =>
    have hcs := @settles_visits _ _ _ _ _ _ g combine .start cs
      (fun c _ q hq => settles_visit c hq) Progress.sound_start
    rcases hcs [] with ⟨e, he, hwork⟩ | ⟨q, hq, hwork⟩
    · rw [List.append_nil] at hwork
      simp only [bind, Except.bind, hwork, he]
      rfl
    · rw [List.append_nil, work] at hwork
      simp only [bind, Except.bind, hwork, hq.sound.valuesFromLast_eq hq.found]
      cases combine root (q.valuesOf cs) <;> rfl

end walk

/-! ## Objects that stand for nodes -/

/-- Objects that stand for the nodes of a graph, as they lie in a memory: several may stand for one
node, and one may be the child of several others. -/
structure Objects {τ ε : Type} (g : Dag τ ε) (ι : Type) where
  graph : Dag ι ε
  node : ι → τ
  /-- The children of an object stand for the children of its node. -/
  children_eq : ∀ i, (graph.children i).map (·.map node) = g.children (node i)

namespace Objects

variable {ι τ ε ρ : Type} {g : Dag τ ε}

/-- Combines the nodes that the objects below a root stand for, one object after another. -/
def fold [BEq ι] [Hashable ι] (objects : g.Objects ι) (combine : τ → List ρ → Except ε ρ)
    (root : ι) : Except ε ρ :=
  (objects.graph.fold (fun i => combine (objects.node i)) root).map (·.value)

theorem evaluate_eq (objects : g.Objects ι) (combine : τ → List ρ → Except ε ρ) (i : ι) :
    objects.graph.evaluate (fun j => combine (objects.node j)) i =
      g.evaluate combine (objects.node i) := by
  induction i using objects.graph.acyclic.induction with
  | _ i ih =>
    rw [Dag.evaluate_eq, Dag.evaluate_eq g, ← objects.children_eq i]
    cases hchildren : objects.graph.children i with
    | error e => rfl
    | ok cs =>
      have hvalues := valuesFromLast_congr fun c hc => ih c (isChild_of_children hchildren hc)
      rw [← valuesFromLast_map objects.node] at hvalues
      exact congrArg (·.bind (combine (objects.node i))) hvalues

/-- However the objects are shared, folding them gives the value of the node. -/
theorem fold_eq [BEq ι] [Hashable ι] [LawfulBEq ι] (objects : g.Objects ι)
    (combine : τ → List ρ → Except ε ρ) (root : ι) :
    objects.fold combine root = g.evaluate combine (objects.node root) :=
  (objects.graph.fold_eq_evaluate _ root).trans (objects.evaluate_eq combine root)

/-- The places below a node, which stand for the nodes that are there. No place is shared. -/
def places (g : Dag τ ε) (top : τ) : g.Objects (g.Place top) where
  graph := g.unfold top
  node := Place.node
  children_eq p := by
    have hchildren : (g.unfold top).children p = p.children := rfl
    rw [hchildren, Place.children]
    split
    case h_1 e he => rw [he]; rfl
    case h_2 ns hns =>
      have hnodes : ((List.finRange ns.length).map (p.child hns)).map Place.node = ns := by
        rw [List.map_map]
        exact List.map_getElem_finRange ns
      exact (congrArg Except.ok hnodes).trans hns.symm

end Objects

theorem foldUnfolded_eq_evaluate {τ ε ρ : Type} (g : Dag τ ε)
    (combine : τ → List ρ → Except ε ρ) (top : τ) :
    g.foldUnfolded combine top = g.evaluate combine top :=
  (Objects.places g top).fold_eq combine .start

end Dag

end Conditionals
