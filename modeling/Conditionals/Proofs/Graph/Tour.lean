/-
Conditionals.Proofs.Graph.Tour — what a fold does to the nodes of a graph,
and in which order.

* `Effect` — a node is asked for its children, or it is combined;
* `Dag.tour` — the effects of going through a graph in depth first: a node
  is asked for its children, these are visited from last to first, and then
  the node is combined. A node that has been combined before is skipped;
* `Dag.order` — the nodes in the order in which a tour combines them: each
  node below the root once, and after its children;
* `Dag.fold_eq_tour` — a fold has the effects of the tour, up to the first
  that fails. If none fails, it gives the root the value that the values of
  the children determine.

Where asking a node fails, the tour goes on as if the node had no children.
Nothing of that is done by a fold, for which the failure is the outcome.
-/
import Conditionals.Proofs.Graph.Evaluation
import Mathlib.Data.List.Nodup
import Mathlib.Logic.Relation
import Mathlib.Order.WellFounded

namespace Conditionals

open scoped Conditionals.Graph

/-! ## Effects -/

/-- What is done to a node. -/
inductive Effect (ι : Type) where
  | ask (n : ι)
  | combine (n : ι)
  deriving DecidableEq, Repr

namespace Effect

variable {ι : Type}

/-- The node that is combined, if the effect combines one. -/
def combined? : Effect ι → Option ι
  | ask _ => none
  | combine n => some n

/-- The nodes that effects combine, in order. -/
def combined (effects : List (Effect ι)) : List ι :=
  effects.filterMap combined?

theorem combined_append (effects others : List (Effect ι)) :
    combined (effects ++ others) = combined effects ++ combined others :=
  List.filterMap_append

theorem combined_ask_cons (n : ι) (effects : List (Effect ι)) :
    combined (.ask n :: effects) = combined effects := rfl

end Effect

namespace Dag

/-! ## Tours -/

section tour

variable {ι κ ε : Type} {g : Dag ι ε} {done ns : List ι} {effects : List (Effect ι)} {m n : ι}

/-- Visits one thing after another. Each visit is told which nodes have been combined before, the
last first. -/
def tourAll (visit : κ → List ι → List (Effect ι)) (done : List ι) : List κ → List (Effect ι)
  | [] => []
  | k :: ks =>
    visit k done ++ tourAll visit ((Effect.combined (visit k done)).reverse ++ done) ks

theorem tourAll_map {ks : List κ} (visit : ι → List ι → List (Effect ι)) (read : κ → ι) :
    tourAll visit done (ks.map read) = tourAll (fun k => visit (read k)) done ks := by
  induction ks generalizing done with
  | nil => rfl
  | cons k ks ih => rw [List.map_cons, tourAll, tourAll, ih]

open scoped Classical in
/-- The effects of visiting a node when some nodes have been combined before. -/
noncomputable def tourFrom (g : Dag ι ε) : ι → List ι → List (Effect ι) :=
  g.acyclic.fix fun n visit done =>
    if n ∈ done then []
    else .ask n ::
      (tourAll (fun c => visit c.1 c.2) done (childrenOrNil g.children n).attach.reverse ++
        [.combine n])

/-- The effects of visiting a node. -/
noncomputable def tour (g : Dag ι ε) (root : ι) : List (Effect ι) :=
  g.tourFrom root []

/-- The nodes below a root in the order in which a tour combines them. -/
noncomputable def order (g : Dag ι ε) (root : ι) : List ι :=
  Effect.combined (g.tour root)

theorem tourFrom_of_mem (h : n ∈ done) : g.tourFrom n done = [] := by
  rw [tourFrom, g.acyclic.fix_eq, if_pos h]

theorem tourFrom_of_not_mem (h : n ∉ done) :
    g.tourFrom n done = .ask n ::
      (tourAll g.tourFrom done (childrenOrNil g.children n).reverse ++ [.combine n]) := by
  have hvisits : tourAll g.tourFrom done (childrenOrNil g.children n).reverse =
      tourAll (fun c => g.tourFrom c.1) done (childrenOrNil g.children n).attach.reverse := by
    rw [← tourAll_map g.tourFrom Subtype.val, List.map_reverse, List.attach_map_subtype_val]
  rw [hvisits, tourFrom, g.acyclic.fix_eq, if_neg h]

theorem combined_tourFrom (h : n ∉ done) :
    (Effect.combined (g.tourFrom n done)).reverse ++ done =
      n :: ((Effect.combined
        (tourAll g.tourFrom done (childrenOrNil g.children n).reverse)).reverse ++ done) := by
  rw [tourFrom_of_not_mem h, Effect.combined_ask_cons, Effect.combined_append,
    List.reverse_append]
  rfl

/-! ### The nodes of a tour -/

/-- A node is the root, or a child of a node below it. -/
def Below (g : Dag ι ε) (n root : ι) : Prop :=
  Relation.ReflTransGen (Graph.IsChild (childrenOrNil g.children)) n root

/-- The nodes, the last first, can be combined in order: each of them once, and after its children. -/
inductive Ordered (g : Dag ι ε) : List ι → Prop
  | nil : Ordered g []
  | cons {n : ι} {done : List ι} : n ∉ done →
      (∀ c, Graph.IsChild (childrenOrNil g.children) c n → c ∈ done) → Ordered g done →
      Ordered g (n :: done)

theorem Ordered.nodup (h : g.Ordered done) : done.Nodup := by
  induction h with
  | nil => exact .nil
  | cons hnot _ _ ih => exact List.nodup_cons.2 ⟨hnot, ih⟩

theorem Ordered.mem_of_isChild {c : ι} (h : g.Ordered done) (hn : n ∈ done)
    (hc : Graph.IsChild (childrenOrNil g.children) c n) : c ∈ done := by
  induction h with
  | nil => cases hn
  | cons _ hchildren _ ih =>
    rcases List.mem_cons.1 hn with rfl | hn
    · exact List.mem_cons_of_mem _ (hchildren c hc)
    · exact List.mem_cons_of_mem _ (ih hn)

theorem Ordered.mem_of_below (h : g.Ordered done) (hn : n ∈ done) (hm : g.Below m n) :
    m ∈ done := by
  induction hm using Relation.ReflTransGen.head_induction_on with
  | refl => exact hn
  | head hc _ ih => exact h.mem_of_isChild ih hc

/-- From some nodes combined before, effects combine some more: those below given nodes, in an order
in which this can be done. -/
structure Covers (g : Dag ι ε) (done ns : List ι) (effects : List (Effect ι)) : Prop where
  ordered : g.Ordered ((Effect.combined effects).reverse ++ done)
  found : ∀ n ∈ ns, n ∈ (Effect.combined effects).reverse ++ done
  below : ∀ m ∈ Effect.combined effects, ∃ n ∈ ns, g.Below m n

theorem covers_tourAll
    (hns : ∀ n ∈ ns, ∀ done, g.Ordered done → g.Covers done [n] (g.tourFrom n done))
    (hdone : g.Ordered done) : g.Covers done ns (tourAll g.tourFrom done ns) := by
  induction ns generalizing done with
  | nil => exact ⟨hdone, nofun, nofun⟩
  | cons n ns ih =>
    have hn := hns n List.mem_cons_self done hdone
    have hrest := ih (fun m hm => hns m (List.mem_cons_of_mem _ hm)) hn.ordered
    have hcombined : (Effect.combined (tourAll g.tourFrom done (n :: ns))).reverse ++ done =
        (Effect.combined (tourAll g.tourFrom
          ((Effect.combined (g.tourFrom n done)).reverse ++ done) ns)).reverse ++
          ((Effect.combined (g.tourFrom n done)).reverse ++ done) := by
      rw [tourAll, Effect.combined_append, List.reverse_append, List.append_assoc]
    refine ⟨?_, ?_, ?_⟩
    · rw [hcombined]
      exact hrest.ordered
    · intro m hm
      rw [hcombined]
      rcases List.mem_cons.1 hm with rfl | hm
      · exact List.mem_append_right _ (hn.found m List.mem_cons_self)
      · exact hrest.found m hm
    · intro m hm
      rw [tourAll, Effect.combined_append, List.mem_append] at hm
      rcases hm with hm | hm
      · obtain ⟨k, hk, hbelow⟩ := hn.below m hm
        obtain rfl := List.mem_singleton.1 hk
        exact ⟨k, List.mem_cons_self, hbelow⟩
      · obtain ⟨k, hk, hbelow⟩ := hrest.below m hm
        exact ⟨k, List.mem_cons_of_mem _ hk, hbelow⟩

theorem covers_tourFrom (n : ι) (hdone : g.Ordered done) :
    g.Covers done [n] (g.tourFrom n done) := by
  induction n using g.acyclic.induction generalizing done with
  | _ n ih =>
    by_cases hn : n ∈ done
    case pos =>
      rw [tourFrom_of_mem hn]
      exact ⟨hdone, fun m hm => List.mem_singleton.1 hm ▸ hn, nofun⟩
    case neg =>
      have hcs := covers_tourAll (fun c hc done hdone => ih c (List.mem_reverse.1 hc) hdone) hdone
      have hbelow : ∀ m ∈ Effect.combined
          (tourAll g.tourFrom done (childrenOrNil g.children n).reverse),
          ∃ c, Graph.IsChild (childrenOrNil g.children) c n ∧ g.Below m c := by
        intro m hm
        obtain ⟨c, hc, hmc⟩ := hcs.below m hm
        exact ⟨c, List.mem_reverse.1 hc, hmc⟩
      -- The node has not been combined on the way, since it is not below one of its children.
      have hfresh : n ∉ (Effect.combined
          (tourAll g.tourFrom done (childrenOrNil g.children n).reverse)).reverse ++ done := by
        intro hmem
        rcases List.mem_append.1 hmem with hmem | hmem
        · obtain ⟨c, hc, hnc⟩ := hbelow n (List.mem_reverse.1 hmem)
          have hcycle := Relation.TransGen.tail' hnc hc
          exact g.acyclic.transGen.asymmetric n n hcycle hcycle
        · exact hn hmem
      have hcombined := @combined_tourFrom _ _ g done n hn
      refine ⟨?_, ?_, ?_⟩
      · rw [hcombined]
        exact .cons hfresh (fun c hc => hcs.found c (List.mem_reverse.2 hc)) hcs.ordered
      · intro m hm
        obtain rfl := List.mem_singleton.1 hm
        rw [hcombined]
        exact List.mem_cons_self
      · intro m hm
        refine ⟨n, List.mem_singleton_self n, ?_⟩
        rw [tourFrom_of_not_mem hn, Effect.combined_ask_cons, Effect.combined_append,
          List.mem_append] at hm
        rcases hm with hm | hm
        · obtain ⟨c, hc, hmc⟩ := hbelow m hm
          exact hmc.tail hc
        · obtain rfl := List.mem_singleton.1 hm
          exact .refl

/-- What a tour combines, the last node first, can be combined in this order. -/
theorem ordered_order (g : Dag ι ε) (root : ι) : g.Ordered (g.order root).reverse := by
  have h := (covers_tourFrom (g := g) root .nil).ordered
  rw [List.append_nil] at h
  exact h

/-- A tour combines the nodes below its root. -/
theorem mem_order_iff {root : ι} : n ∈ g.order root ↔ g.Below n root := by
  have hcovers := covers_tourFrom (g := g) root .nil
  constructor
  · intro hn
    obtain ⟨m, hm, hbelow⟩ := hcovers.below n hn
    obtain rfl := List.mem_singleton.1 hm
    exact hbelow
  · intro hn
    have hroot := hcovers.found root (List.mem_singleton_self root)
    rw [List.append_nil] at hroot
    exact List.mem_reverse.1 ((g.ordered_order root).mem_of_below hroot hn)

end tour

/-! ## Faults and values -/

section outcome

variable {ι ε ρ : Type} {g : Dag ι ε} {combine : ι → List ρ → Except ε ρ} {n : ι} {cs : List ι}

/-- What something fails with, if it does. -/
def faultOf {α : Type} : Except ε α → Option ε
  | .error e => some e
  | .ok _ => none

/-- What an effect fails with, if it does. A node is combined with the values of its children; if it
has none of these, something else has failed before. -/
noncomputable def fault? (g : Dag ι ε) (combine : ι → List ρ → Except ε ρ) : Effect ι → Option ε
  | .ask n => faultOf (g.children n)
  | .combine n =>
    match (g.children n).bind (valuesFromLast (g.evaluate combine)) with
    | .ok values => faultOf (combine n values)
    | .error _ => none

/-- The first fault on a tour from a node. -/
noncomputable def firstFault? (g : Dag ι ε) (combine : ι → List ρ → Except ε ρ) (root : ι) :
    Option ε :=
  (g.tour root).findSome? (g.fault? combine)

theorem childrenOrNil_of_ok (h : g.children n = .ok cs) :
    childrenOrNil g.children n = cs := by
  rw [childrenOrNil, h]

/-! ### Values -/

/-- Values of the nodes below a root, each from the values of its children. -/
def Values (g : Dag ι ε) (combine : ι → List ρ → Except ε ρ) (root : ι) (v : ι → ρ) : Prop :=
  ∀ n, g.Below n root → ∃ cs, g.children n = .ok cs ∧ combine n (cs.map v) = .ok (v n)

theorem Values.evaluate_eq {root : ι} {v : ι → ρ} (h : g.Values combine root v)
    (hn : g.Below n root) : g.evaluate combine n = .ok (v n) := by
  induction n using g.acyclic.induction with
  | _ n ih =>
    obtain ⟨cs, hchildren, hcombine⟩ := h n hn
    have hvalues : valuesFromLast (g.evaluate combine) cs = .ok (cs.map v) := by
      rw [valuesFromLast_eq_ok_iff, List.forall₂_map_right_iff, List.forall₂_same]
      intro c hc
      have hchild := isChild_of_children hchildren hc
      exact ih c hchild (.head hchild hn)
    rw [Dag.evaluate_eq, hchildren, Except.bind, hvalues]
    exact hcombine

/-- The value of a node; another one if it has none. -/
noncomputable def valueOr (g : Dag ι ε) (combine : ι → List ρ → Except ε ρ) (other : ρ) (n : ι) : ρ :=
  (g.evaluate combine n).toOption.getD other

theorem valueOr_eq {other u : ρ} (h : g.evaluate combine n = .ok u) :
    g.valueOr combine other n = u := by
  rw [valueOr, h]
  rfl

/-- A node has a value only if its children have, and it is combined with these. -/
theorem values_of_evaluate {u : ρ} (other : ρ) (h : g.evaluate combine n = .ok u) :
    ∃ cs, g.children n = .ok cs ∧ combine n (cs.map (g.valueOr combine other)) = .ok u ∧
      ∀ c ∈ cs, ∃ u, g.evaluate combine c = .ok u := by
  simp only [evaluate_eq g combine n, bind_eq_ok_iff, valuesFromLast_eq_ok_iff] at h
  obtain ⟨cs, hchildren, us, hus, hcombine⟩ := h
  have hboth : List.Forall₂
      (fun c u => (∃ u, g.evaluate combine c = .ok u) ∧ g.valueOr combine other c = u) cs us :=
    hus.imp fun c u hu => ⟨⟨u, hu⟩, valueOr_eq hu⟩
  obtain ⟨hcs, hvalues⟩ := (List.forall₂_and_left _ _).1 hboth
  rw [← List.forall₂_map_left_iff, List.forall₂_eq_eq_eq] at hvalues
  exact ⟨cs, hchildren, hvalues ▸ hcombine, hcs⟩

theorem exists_value_of_below {root : ι} {w : ρ} (h : g.evaluate combine root = .ok w)
    (hn : g.Below n root) : ∃ u, g.evaluate combine n = .ok u := by
  induction hn using Relation.ReflTransGen.head_induction_on with
  | refl => exact ⟨w, h⟩
  | head hc _ ih =>
    obtain ⟨u, hu⟩ := ih
    obtain ⟨cs, hchildren, -, hcs⟩ := values_of_evaluate w hu
    rw [Graph.IsChild, childrenOrNil_of_ok hchildren] at hc
    exact hcs _ hc

theorem values_valueOr {root : ι} {w : ρ} (h : g.evaluate combine root = .ok w) :
    g.Values combine root (g.valueOr combine w) := by
  intro n hn
  obtain ⟨u, hu⟩ := exists_value_of_below h hn
  obtain ⟨cs, hchildren, hcombine, -⟩ := values_of_evaluate w hu
  exact ⟨cs, hchildren, by rw [valueOr_eq hu, hcombine]⟩

end outcome

/-! ## Folds -/

section fold

variable {ι ε ρ : Type} [DecidableEq ι] [Hashable ι] {g : Dag ι ε}
  {combine : ι → List ρ → Except ε ρ} {p : Progress ι ρ} {n : ι} {cs ns : List ι}

theorem work_visit {tasks : List (Task ι)} (h : ¬ p.values.contains n) :
    g.work combine p (.visit n :: tasks) =
      (g.children n).bind fun cs => g.work combine p (visits cs ++ .combine n cs :: tasks) := by
  rw [work, if_neg h]
  split
  case h_1 e he => rw [he]; rfl
  case h_2 cs hcs => simp only [hcs]; rfl

theorem work_combine {tasks : List (Task ι)} :
    g.work combine p (.combine n cs :: tasks) =
      (combine n (p.valuesOf cs)).bind fun v => g.work combine (p.record n v) tasks := by
  rw [work]
  cases combine n (p.valuesOf cs) <;> rfl

/-- Tasks are done one after another. -/
theorem work_append (p : Progress ι ρ) (tasks others : List (Task ι)) :
    g.work combine p (tasks ++ others) =
      (g.work combine p tasks).bind fun q => g.work combine q others := by
  fun_induction g.work combine p tasks with
  | case1 p => rfl
  | case2 p n tasks hmem ih => rw [List.cons_append, work, if_pos hmem, ih]
  | case3 p n tasks hmem e hchildren => rw [List.cons_append, work_visit hmem, hchildren]; rfl
  | case4 p n tasks hmem cs hchildren _ ih =>
    rw [List.cons_append, work_visit hmem, hchildren, ← ih, List.append_assoc, List.cons_append]
    rfl
  | case5 p n cs tasks e hcombine => rw [List.cons_append, work_combine, hcombine]; rfl
  | case6 p n cs tasks v hcombine ih => rw [List.cons_append, work_combine, hcombine, ← ih]; rfl

/-- All values found are right. They are those of the nodes combined, and these could be combined in
the order in which they were. -/
structure Progress.Exact (g : Dag ι ε) (combine : ι → List ρ → Except ε ρ) (p : Progress ι ρ) :
    Prop where
  sound : p.Sound g combine
  mem_iff : ∀ n, n ∈ p.values ↔ n ∈ p.combined
  ordered : g.Ordered p.combined

/-- What tasks in front of others come to, if they are there to have some effects: the first fault of
these, or the progress that they make. -/
def Performs (g : Dag ι ε) (combine : ι → List ρ → Except ε ρ) (p : Progress ι ρ)
    (front : List (Task ι)) (effects : List (Effect ι)) : Prop :=
  ∀ tasks,
    (∃ e, effects.findSome? (g.fault? combine) = some e ∧
      g.work combine p (front ++ tasks) = .error e) ∨
    effects.findSome? (g.fault? combine) = none ∧
      ∃ q, q.Exact g combine ∧ q.combined = (Effect.combined effects).reverse ++ p.combined ∧
        g.work combine p (front ++ tasks) = g.work combine q tasks

/-- Visits have the effects of a tour of one node after another, if each of them has those of a tour
of its node. -/
theorem performs_visits
    (hns : ∀ n ∈ ns, ∀ p : Progress ι ρ, p.Exact g combine →
      g.Performs combine p [.visit n] (g.tourFrom n p.combined)) (hp : p.Exact g combine) :
    g.Performs combine p (ns.map .visit) (tourAll g.tourFrom p.combined ns) := by
  induction ns generalizing p with
  | nil => exact fun tasks => .inr ⟨rfl, p, hp, rfl, rfl⟩
  | cons n ns ih =>
    intro tasks
    have hrest := fun q hq => @ih q (fun m hm => hns m (List.mem_cons_of_mem _ hm)) hq
    rw [tourAll, List.findSome?_append]
    rcases hns n List.mem_cons_self p hp (ns.map .visit ++ tasks) with
      ⟨e, he, hwork⟩ | ⟨hnone, q, hq, hcombined, hwork⟩
    · exact .inl ⟨e, by rw [he, Option.some_or], hwork⟩
    · rw [hnone, Option.none_or, ← hcombined]
      rcases hrest q hq tasks with ⟨e, he, hlast⟩ | ⟨hnone, r, hr, hcombined', hlast⟩
      · exact .inl ⟨e, he, hwork.trans hlast⟩
      · refine .inr ⟨hnone, r, hr, ?_, hwork.trans hlast⟩
        rw [hcombined', Effect.combined_append, List.reverse_append, List.append_assoc, hcombined]

/-- A fold is a visit to its root. -/
theorem fold_of_work (g : Dag ι ε) (combine : ι → List ρ → Except ε ρ) (root : ι) :
    (∀ e, g.work combine .start [.visit root] = .error e → g.fold combine root = .error e) ∧
    ∀ q, g.work combine .start [.visit root] = .ok q →
      ∃ v, g.fold combine root = .ok ⟨v, q.combined.reverse⟩ := by
  have hroot : ¬ (Progress.start : Progress ι ρ).values.contains root := by simp [Progress.start]
  rw [work_visit hroot, fold]
  cases hchildren : g.children root with
  | error e => exact ⟨fun _ h => by cases h; rfl, fun _ h => by cases h⟩
  | ok cs =>
    simp only [Except.bind, bind, work_append]
    cases g.work combine .start (visits cs) with
    | error e => exact ⟨fun _ h => by cases h; rfl, fun _ h => by cases h⟩
    | ok q =>
      simp only [work_combine]
      cases combine root (q.valuesOf cs) with
      | error e => exact ⟨fun _ h => by cases h; rfl, fun _ h => by cases h⟩
      | ok v =>
        simp only [Except.bind, work]
        refine ⟨fun _ h => (by cases h), fun r h => ?_⟩
        cases h
        exact ⟨v, rfl⟩

theorem Progress.exact_start : (start : Progress ι ρ).Exact g combine :=
  ⟨sound_start, fun n => by simp [start], .nil⟩

theorem Progress.Exact.record (h : p.Exact g combine) {v : ρ} (hv : g.evaluate combine n = .ok v)
    (hordered : g.Ordered (n :: p.combined)) : (p.record n v).Exact g combine where
  sound := h.sound.record hv
  mem_iff m := by
    simp only [Progress.record, Std.HashMap.mem_insert, List.mem_cons, h.mem_iff, beq_iff_eq]
    exact or_congr_left eq_comm
  ordered := hordered

/-- A node whose children have been combined is combined with their values. -/
theorem fault?_combine (hp : p.Exact g combine) (hchildren : g.children n = .ok cs)
    (hcs : ∀ c ∈ cs, c ∈ p.combined) :
    g.fault? combine (.combine n) = faultOf (combine n (p.valuesOf cs)) ∧
      g.evaluate combine n = combine n (p.valuesOf cs) := by
  have hvalues := hp.sound.valuesFromLast_eq fun c hc => (hp.mem_iff c).2 (hcs c hc)
  constructor
  · rw [fault?, hchildren, Except.bind, hvalues]
  · rw [evaluate_eq, hchildren, Except.bind, hvalues]
    rfl

/-- A visit to a node has the effects of a tour from it. -/
theorem performs_visit (n : ι) (hp : p.Exact g combine) :
    g.Performs combine p [.visit n] (g.tourFrom n p.combined) := by
  induction n using g.acyclic.induction generalizing p with
  | _ n ih =>
    intro tasks
    by_cases hn : n ∈ p.combined
    case pos =>
      have hmem := Std.HashMap.mem_iff_contains.1 ((hp.mem_iff n).2 hn)
      rw [tourFrom_of_mem hn, List.singleton_append, work, if_pos hmem]
      exact .inr ⟨rfl, p, hp, rfl, rfl⟩
    case neg =>
      have hmem : ¬ p.values.contains n :=
        fun h => hn ((hp.mem_iff n).1 (Std.HashMap.mem_iff_contains.2 h))
      rw [combined_tourFrom hn, tourFrom_of_not_mem hn, List.singleton_append, work_visit hmem,
        List.findSome?_cons]
      cases hchildren : g.children n with
      | error e =>
        have hask : g.fault? combine (.ask n) = some e := by rw [fault?, hchildren]; rfl
        rw [hask]
        exact .inl ⟨e, rfl, rfl⟩
      | ok cs =>
        have hask : g.fault? combine (.ask n) = none := by rw [fault?, hchildren]; rfl
        have hcs := childrenOrNil_of_ok hchildren
        have hcovers : g.Covers p.combined cs.reverse _ :=
          covers_tourAll (fun c _ done hdone => covers_tourFrom c hdone) hp.ordered
        have hvisits : g.Performs combine p (cs.reverse.map .visit) _ := performs_visits
          (fun c hc q hq => ih c (isChild_of_children hchildren (List.mem_reverse.1 hc)) hq) hp
        have hordered := (covers_tourFrom n hp.ordered).ordered
        rw [combined_tourFrom hn, hcs] at hordered
        rw [hask, hcs, List.findSome?_append, Except.bind]
        rcases hvisits (.combine n cs :: tasks) with ⟨e, he, hwork⟩ | ⟨hnone, q, hq, hq', hwork⟩
        · exact .inl ⟨e, by rw [he, Option.some_or], hwork⟩
        · have hfound : ∀ c ∈ cs, c ∈ q.combined := by
            intro c hc
            rw [hq']
            exact hcovers.found c (List.mem_reverse.2 hc)
          obtain ⟨hfault, hevaluate⟩ := fault?_combine hq hchildren hfound
          have hlast : [Effect.combine n].findSome? (g.fault? combine) =
              faultOf (combine n (q.valuesOf cs)) := by
            rw [List.findSome?_singleton, hfault]
          rw [hnone, Option.none_or, hlast]
          change g.work combine p (visits cs ++ .combine n cs :: tasks) = _ at hwork
          rw [hwork, work_combine]
          cases hcombine : combine n (q.valuesOf cs) with
          | error e => exact .inl ⟨e, rfl, rfl⟩
          | ok v =>
            rw [← hq'] at hordered ⊢
            exact .inr ⟨rfl, q.record n v, hq.record (hevaluate.trans hcombine) hordered, rfl, rfl⟩

/-- A fold has the effects of the tour from its root. -/
theorem fold_cases (g : Dag ι ε) (combine : ι → List ρ → Except ε ρ) (root : ι) :
    (∃ e, g.firstFault? combine root = some e ∧ g.fold combine root = .error e) ∨
    g.firstFault? combine root = none ∧ ∃ v, g.fold combine root = .ok ⟨v, g.order root⟩ := by
  obtain ⟨herror, hok⟩ := g.fold_of_work combine root
  have hvisit : g.Performs combine .start [.visit root] _ :=
    performs_visit root Progress.exact_start
  rcases hvisit [] with ⟨e, he, hwork⟩ | ⟨hnone, q, -, hq, hwork⟩
  · exact .inl ⟨e, he, herror e hwork⟩
  · rw [List.append_nil, work] at hwork
    obtain ⟨v, hfold⟩ := hok q hwork
    refine .inr ⟨hnone, v, ?_⟩
    have horder : q.combined.reverse = g.order root := by
      rw [hq, List.reverse_append, List.reverse_reverse]
      rfl
    rw [hfold, horder]

/-- A fold combines the nodes below its root, each of them once and after its children. If nothing
fails, the result is the value of the root, where the value of a node comes from the values of its
children; otherwise it is the first fault on the tour from the root. -/
theorem fold_eq_tour (g : Dag ι ε) (combine : ι → List ρ → Except ε ρ) (root : ι) :
    (g.order root).Nodup ∧ g.Ordered (g.order root).reverse ∧
    (∀ n, n ∈ g.order root ↔ g.Below n root) ∧
    (∀ r, g.fold combine root = .ok r ↔
      r.order = g.order root ∧ ∃ v, g.Values combine root v ∧ r.value = v root) ∧
    ∀ e, g.fold combine root = .error e ↔ g.firstFault? combine root = some e := by
  have hvalue := g.fold_eq_evaluate combine root
  refine ⟨List.nodup_reverse.1 (g.ordered_order root).nodup, g.ordered_order root,
    fun n => mem_order_iff, fun r => ?_, fun e => ?_⟩
  · constructor
    · intro h
      rw [h] at hvalue
      refine ⟨?_, _, values_valueOr hvalue.symm, (valueOr_eq hvalue.symm).symm⟩
      rcases g.fold_cases combine root with ⟨e, -, he⟩ | ⟨-, w, hw⟩
      · cases h.symm.trans he
      · cases h.symm.trans hw
        rfl
    · rintro ⟨horder, v, hv, hroot⟩
      rw [hv.evaluate_eq .refl] at hvalue
      rcases g.fold_cases combine root with ⟨e, -, he⟩ | ⟨-, w, hw⟩
      · rw [he] at hvalue
        cases hvalue
      · rw [hw] at hvalue ⊢
        obtain ⟨value, order⟩ := r
        obtain rfl : order = g.order root := horder
        obtain rfl : w = v root := Except.ok.inj hvalue
        obtain rfl : value = v root := hroot
        rfl
  · rcases g.fold_cases combine root with ⟨e', hfirst, he'⟩ | ⟨hnone, w, hw⟩
    · rw [hfirst, he']
      simp
    · rw [hnone, hw]
      simp

end fold

end Dag

end Conditionals
