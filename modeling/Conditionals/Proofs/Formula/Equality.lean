/-
Conditionals.Proofs.Formula.Equality — comparing formulas with shared parts
decides whether they are the same tree.

* `FormulaGraph.formula` — the formula that a reference stands for, with
  nothing shared;
* `FormulaGraph.stamp_eq_digestBy` — the digest of a reference depends on
  that formula alone;
* `FormulaGraph.Sound` — a set of pairs each of which stands for one formula
  twice;
* `FormulaGraph.equal_iff_formula_eq` — a comparison that is given such a
  set says whether two references stand for one formula, and gives such a
  set back. The digests play no part in what it says, so it does not matter
  where they collide;
* `Formula.same_iff` — the same for formulas that are laid down to be
  compared.

A pair that has been put on the list is not looked at again, although it
may still be waiting there. What holds on the way is that each pair of the
set is on the list or has its operands in the set (`FormulaGraph.Settled`);
once the list is empty, the set is closed, and an induction over the graph
shows it sound.
-/
import Conditionals.Comparison
import Mathlib.Algebra.Order.BigOperators.Group.List
import Mathlib.Algebra.Order.Group.Nat

namespace Conditionals

open scoped Conditionals.Graph

/-! ## The formula of a reference -/

/-- The formula with an outermost layer. -/
def Layer.formula : Layer Condition → Condition
  | const value => .const value
  | atom a => .atom a
  | neg f => .neg f
  | join op f g => .join op f g

/-- The digest of a formula, from those of its operands. -/
def Formula.digestBy {δ : Type} (digest : Layer δ → δ) : Condition → δ
  | const value => digest (.const value)
  | atom a => digest (.atom a)
  | neg f => digest (.neg (f.digestBy digest))
  | join op f g => digest (.join op (f.digestBy digest) (g.digestBy digest))

theorem Formula.digestBy_formula {δ : Type} (digest : Layer δ → δ) (l : Layer Condition) :
    l.formula.digestBy digest = digest (l.map (digestBy digest)) := by
  cases l <;> rfl

namespace FormulaGraph

variable {ι δ : Type} {digest : Layer δ → δ} {g : FormulaGraph ι δ digest} {i j : ι}

theorem size_lt_of_mem_operands (h : j ∈ (g.layer i).operands) : g.size j < g.size i := by
  have hle := List.le_sum_of_mem (List.mem_map_of_mem (f := g.size) h)
  have hsize : g.size i = 1 + ((g.layer i).operands.map g.size).sum :=
    Graph.unfoldedSize_eq _ _ _
  omega

/-- The formula that a reference stands for. -/
def formula (g : FormulaGraph ι δ digest) (i : ι) : Condition :=
  match _h : g.layer i with
  | .const value => .const value
  | .atom a => .atom a
  | .neg j => .neg (g.formula j)
  | .join op j k => .join op (g.formula j) (g.formula k)
  termination_by g.size i
  decreasing_by all_goals exact size_lt_of_mem_operands (by simp [_h, Layer.operands])

theorem formula_eq (g : FormulaGraph ι δ digest) (i : ι) :
    g.formula i = ((g.layer i).map g.formula).formula := by
  rw [formula]
  split
  case h_1 value h => rw [h]; rfl
  case h_2 a h => rw [h]; rfl
  case h_3 j h => rw [h]; rfl
  case h_4 op j k h => rw [h]; rfl

/-- The digest of a reference is that of its formula. -/
theorem stamp_eq_digestBy (g : FormulaGraph ι δ digest) (i : ι) :
    g.stamp i = (g.formula i).digestBy digest := by
  induction i using g.acyclic.induction with
  | _ i ih =>
    rw [g.stamp_eq, formula_eq, Formula.digestBy_formula]
    have hmap : ((g.layer i).map g.formula).map (Formula.digestBy digest) =
        (g.layer i).map fun j => (g.formula j).digestBy digest := by
      cases g.layer i <;> rfl
    rw [hmap]
    exact congrArg digest (Layer.map_congr fun j hj => ih j hj)

/-- References stand for one formula if their layers are alike and so do the operands, pair by
pair. -/
theorem formula_eq_iff : g.formula i = g.formula j ↔
    ∃ pairs, (g.layer i).pairs? (g.layer j) = some pairs ∧
      ∀ p ∈ pairs, g.formula p.1 = g.formula p.2 := by
  rw [formula_eq g i, formula_eq g j]
  cases g.layer i <;> cases g.layer j <;> simp [Layer.map, Layer.formula, Layer.pairs?]
  case join.join => grind

end FormulaGraph

/-! ## Formulas laid down -/

namespace FormulaStore

variable {δ : Type} {digest : Layer δ → δ} {s : FormulaStore δ digest}

theorem lt_of_mem_operands {i c : Nat} (h : c ∈ (s.graph.layer i).operands) : c < i := by
  have hlayer : s.graph.layer i = s.layer i := rfl
  rw [hlayer, layer] at h
  split at h
  case h_1 entry hentry => exact s.operands_lt i entry.1 entry.2 hentry c h
  case h_2 => cases h

theorem layer_push {l : Layer Nat} {h : ∀ c ∈ l.operands, c < s.size} {i : Nat}
    (hi : i < s.size) : (s.push l h).layer i = s.layer i := by
  have hne : i ≠ s.entries.size := Nat.ne_of_lt hi
  simp [layer, push, Array.getElem?_push, hne]

/-- A new entry leaves the formulas of the others as they are. -/
theorem formula_push {l : Layer Nat} {h : ∀ c ∈ l.operands, c < s.size} {i : Nat}
    (hi : i < s.size) : (s.push l h).graph.formula i = s.graph.formula i := by
  induction i using Nat.strongRecOn with
  | _ i ih =>
    have hlayer : (s.push l h).graph.layer i = s.graph.layer i := layer_push hi
    rw [FormulaGraph.formula_eq, FormulaGraph.formula_eq, hlayer]
    refine congrArg Layer.formula (Layer.map_congr fun c hc => ?_)
    have hlt := lt_of_mem_operands hc
    exact ih c hlt (Nat.lt_trans hlt hi)

/-- The last reference of a store that has grown stands for a formula, and all earlier ones stand for
what they stood for. -/
structure Added.Holds (a : Added s) (f : Condition) : Prop where
  formula_ref : a.store.graph.formula a.ref = f
  formula_eq : ∀ i < s.size, a.store.graph.formula i = s.graph.formula i

theorem holds_addLayer (l : Layer Nat) (h : ∀ c ∈ l.operands, c < s.size) :
    (s.addLayer l h).Holds (l.map s.graph.formula).formula := by
  have hold : ∀ i < s.size, (s.push l h).graph.formula i = s.graph.formula i :=
    fun i hi => formula_push hi
  have hnew : (s.push l h).graph.layer s.size = l := by
    have hentry : (s.push l h).layer s.size = l := by simp [layer, push, size]
    exact hentry
  refine ⟨?_, hold⟩
  change (s.push l h).graph.formula s.size = _
  rw [FormulaGraph.formula_eq, hnew]
  exact congrArg Layer.formula (Layer.map_congr fun c hc => hold c (h c hc))

theorem Added.Holds.after {a : Added s} {b : Added a.store} {f g : Condition} (ha : a.Holds f)
    (hb : b.Holds g) : (a.after b).Holds g where
  formula_ref := hb.formula_ref
  formula_eq i hi :=
    (hb.formula_eq i (Nat.lt_of_lt_of_le hi a.size_le)).trans (ha.formula_eq i hi)

/-- The reference of a formula that was laid down stands for it. -/
theorem holds_add (s : FormulaStore δ digest) (f : Condition) : (s.add f).Holds f := by
  induction f generalizing s with
  | const value => exact holds_addLayer _ _
  | atom a => exact holds_addLayer _ _
  | neg f ih =>
    have hf := ih s
    have hneg := hf.after (holds_addLayer (.neg (s.add f).ref)
      (by simpa [Layer.operands] using (s.add f).ref_lt))
    exact ⟨hneg.formula_ref.trans (congrArg Formula.neg hf.formula_ref), hneg.formula_eq⟩
  | join op f g ihf ihg =>
    have hf := ihf s
    have hg := ihg (s.add f).store
    have hleft : ((s.add f).store.add g).store.graph.formula (s.add f).ref = f :=
      (hg.formula_eq _ (s.add f).ref_lt).trans hf.formula_ref
    have hjoin := (hf.after hg).after
      (holds_addLayer (.join op (s.add f).ref ((s.add f).store.add g).ref) (by
        have := ((s.add f).store.add g).ref_lt
        have := Nat.lt_of_lt_of_le (s.add f).ref_lt ((s.add f).store.add g).size_le
        simp_all [Layer.operands, Added.after]))
    exact ⟨hjoin.formula_ref.trans (congrArg₂ (Formula.join op) hleft hg.formula_ref), hjoin.formula_eq⟩

end FormulaStore

namespace FormulaGraph

variable {ι δ : Type} {digest : Layer δ → δ} {g : FormulaGraph ι δ digest} {i j : ι}

/-! ## Pairs that need no comparing -/

section comparing

variable [DecidableEq ι] [Hashable ι] {seen seen' : Seen ι} {pending pairs : List (ι × ι)}
  {p : ι × ι}

/-- Each pair of the set stands for one formula. -/
def Sound (g : FormulaGraph ι δ digest) (seen : Seen ι) : Prop :=
  ∀ p ∈ seen, g.formula p.1 = g.formula p.2

/-- The pair stands for one formula, provided that the pairs of a set do. -/
def Settled (g : FormulaGraph ι δ digest) (seen : Seen ι) (p : ι × ι) : Prop :=
  g.formula p.1 = g.formula p.2 ∨
    ∃ pairs, (g.layer p.1).pairs? (g.layer p.2) = some pairs ∧ ∀ q ∈ pairs, q ∈ seen

theorem Settled.mono (h : g.Settled seen p) (hsub : ∀ q ∈ seen, q ∈ seen') :
    g.Settled seen' p := by
  rcases h with h | ⟨pairs, hpairs, hmem⟩
  · exact .inl h
  · exact .inr ⟨pairs, hpairs, fun q hq => hsub q (hmem q hq)⟩

/-- A set all of whose pairs are settled by the set itself is sound. -/
theorem sound_of_settled (h : ∀ p ∈ seen, g.Settled seen p) : g.Sound seen := by
  rintro ⟨i, j⟩ hp
  induction i using g.acyclic.induction generalizing j with
  | _ i ih =>
    rcases h _ hp with heq | ⟨pairs, hpairs, hmem⟩
    · exact heq
    · refine formula_eq_iff.2 ⟨pairs, hpairs, fun q hq => ih q.1 ?_ q.2 (hmem q hq)⟩
      have hfst : q.1 ∈ pairs.map Prod.fst := List.mem_map_of_mem hq
      rw [Layer.map_fst_of_pairs? hpairs] at hfst
      exact hfst

theorem mem_schedule_fst :
    p ∈ (schedule seen pending pairs).1 ↔ p ∈ seen ∨ p ∈ pairs := by
  fun_induction schedule seen pending pairs with
  | case1 => simp
  | case2 seen pending q pairs hq ih => grind
  | case3 seen pending q pairs hq ih => grind

theorem mem_schedule_snd :
    p ∈ (schedule seen pending pairs).2 ↔ p ∈ pending ∨ p ∈ pairs ∧ p ∉ seen := by
  fun_induction schedule seen pending pairs with
  | case1 => simp
  | case2 seen pending q pairs hq ih => grind
  | case3 seen pending q pairs hq ih => grind

/-! ## Comparing -/

theorem sound_empty (g : FormulaGraph ι δ digest) : g.Sound ∅ := by
  intro p hp
  exact absurd hp Std.HashSet.not_mem_empty

variable [DecidableEq δ]

/-- If each pair of a set is on the list or settled, all pairs of the set and of the list are settled
once the list has been worked off. -/
theorem settled_of_equalFrom (h : g.equalFrom seen pending = some seen')
    (hseen : ∀ p ∈ seen, p ∈ pending ∨ g.Settled seen p) :
    (∀ p ∈ seen, p ∈ seen') ∧ (∀ p ∈ pending, g.Settled seen' p) ∧
      ∀ p ∈ seen', g.Settled seen' p := by
  fun_induction g.equalFrom seen pending with
  | case1 seen =>
    cases h
    exact ⟨fun p hp => hp, nofun, fun p hp => (hseen p hp).resolve_left List.not_mem_nil⟩
  | case2 seen i pending ih =>
    have hself : ∀ seen : Seen ι, g.Settled seen (i, i) := fun _ => .inl rfl
    obtain ⟨hkept, hpending, hall⟩ := ih h fun p hp => by
      rcases hseen p hp with hmem | hsettled
      · rcases List.mem_cons.1 hmem with rfl | hmem
        · exact .inr (hself seen)
        · exact .inl hmem
      · exact .inr hsettled
    exact ⟨hkept, List.forall_mem_cons.2 ⟨hself seen', hpending⟩, hall⟩
  | case3 => cases h
  | case4 => cases h
  | case5 seen i j pending _ _ pairs hpairs _ ih =>
    have hgrows : ∀ p ∈ seen, p ∈ (schedule seen pending pairs).1 :=
      fun p hp => mem_schedule_fst.2 (.inl hp)
    have hself : g.Settled (schedule seen pending pairs).1 (i, j) :=
      .inr ⟨pairs, hpairs, fun q hq => mem_schedule_fst.2 (.inr hq)⟩
    obtain ⟨hkept, hpending, hall⟩ := ih h fun p hp => by
      by_cases hold : p ∈ seen
      case pos =>
        rcases hseen p hold with hmem | hsettled
        · rcases List.mem_cons.1 hmem with rfl | hmem
          · exact .inr hself
          · exact .inl (mem_schedule_snd.2 (.inl hmem))
        · exact .inr (hsettled.mono hgrows)
      case neg =>
        have hnew : p ∈ pairs := (mem_schedule_fst.1 hp).resolve_left hold
        exact .inl (mem_schedule_snd.2 (.inr ⟨hnew, hold⟩))
    refine ⟨fun p hp => hkept p (hgrows p hp), ?_, hall⟩
    exact List.forall_mem_cons.2
      ⟨hself.mono hkept, fun p hp => hpending p (mem_schedule_snd.2 (.inl hp))⟩

/-- Pairs that all stand for one formula are worked off to the end. -/
theorem exists_equalFrom (h : ∀ p ∈ pending, g.formula p.1 = g.formula p.2) :
    ∃ seen', g.equalFrom seen pending = some seen' := by
  fun_induction g.equalFrom seen pending with
  | case1 seen => exact ⟨seen, rfl⟩
  | case2 seen i pending ih => exact ih fun p hp => h p (List.mem_cons_of_mem _ hp)
  | case3 seen i j pending _ hstamp =>
    have hformula : g.formula i = g.formula j := h (i, j) List.mem_cons_self
    rw [stamp_eq_digestBy, stamp_eq_digestBy, hformula] at hstamp
    exact absurd rfl hstamp
  | case4 seen i j pending _ _ hnone =>
    obtain ⟨pairs, hpairs, -⟩ := formula_eq_iff.1 (h (i, j) List.mem_cons_self)
    rw [hnone] at hpairs
    cases hpairs
  | case5 seen i j pending _ _ pairs hpairs _ ih =>
    obtain ⟨pairs', hpairs', hoperands⟩ := formula_eq_iff.1 (h (i, j) List.mem_cons_self)
    obtain rfl : pairs = pairs' := Option.some.inj (hpairs.symm.trans hpairs')
    refine ih fun p hp => ?_
    rcases mem_schedule_snd.1 hp with hp | ⟨hp, -⟩
    · exact h p (List.mem_cons_of_mem _ hp)
    · exact hoperands p hp

theorem formula_eq_of_equal (hseen : g.Sound seen) (h : g.equal seen i j = some seen') :
    g.formula i = g.formula j ∧ g.Sound seen' := by
  obtain ⟨-, hpending, hall⟩ := settled_of_equalFrom h fun p hp => .inr (.inl (hseen p hp))
  have hsound := sound_of_settled hall
  refine ⟨?_, hsound⟩
  rcases hpending (i, j) List.mem_cons_self with heq | ⟨pairs, hpairs, hmem⟩
  · exact heq
  · exact formula_eq_iff.2 ⟨pairs, hpairs, fun q hq => hsound q (hmem q hq)⟩

theorem isSome_equal_iff (hseen : g.Sound seen) :
    (g.equal seen i j).isSome ↔ g.formula i = g.formula j := by
  constructor
  · intro h
    obtain ⟨seen', hequal⟩ := Option.isSome_iff_exists.1 h
    exact (formula_eq_of_equal hseen hequal).1
  · intro h
    obtain ⟨seen', hequal⟩ := @exists_equalFrom _ _ _ g _ _ seen [(i, j)] _ (by simpa using h)
    exact Option.isSome_iff_exists.2 ⟨seen', hequal⟩

theorem same_iff_formula_eq : g.same i j ↔ g.formula i = g.formula j :=
  isSome_equal_iff g.sound_empty

/-- Given a sound set of pairs, a comparison says whether two references stand for one formula, and
gives a sound set back if they do. References to one formula have one digest; so comparing is an
equivalence that the digests respect. -/
theorem equal_iff_formula_eq (g : FormulaGraph ι δ digest) :
    (∀ seen, g.Sound seen → ∀ i j,
      ((g.equal seen i j).isSome ↔ g.formula i = g.formula j) ∧
        ∀ seen', g.equal seen i j = some seen' → g.Sound seen') ∧
    (∀ i j, g.formula i = g.formula j → g.stamp i = g.stamp j) ∧
    (Equivalence fun i j => g.same i j) ∧ ∀ i j, g.same i j → g.stamp i = g.stamp j := by
  have hstamp : ∀ i j, g.formula i = g.formula j → g.stamp i = g.stamp j := by
    intro i j h
    rw [stamp_eq_digestBy, stamp_eq_digestBy, h]
  refine ⟨?_, hstamp, ?_, ?_⟩
  · intro seen hseen i j
    exact ⟨isSome_equal_iff hseen, fun seen' h => (formula_eq_of_equal hseen h).2⟩
  · simp only [same_iff_formula_eq]
    exact ⟨fun _ => rfl, Eq.symm, Eq.trans⟩
  · intro i j h
    exact hstamp i j (same_iff_formula_eq.1 h)

end comparing

/-- Two copies of `!(A && B)`, compared where all digests collide and the two copies of `A` are known
to be alike. -/
theorem equal_iff_formula_eq_colliding :
    let f : Condition := .neg (.conj (.atom (.bare "A")) (.atom (.bare "B")))
    let s := FormulaStore.add (.empty : FormulaStore Unit fun _ => ()) f
    let g := (s.store.add f).store.graph
    let seen : Seen Nat := {(0, 4)}
    g.Sound seen ∧ (g.equal seen 3 7).isSome ∧ ¬ (g.equal seen 0 1).isSome ∧
      g.stamp 0 = g.stamp 1 := by
  intro f s g seen
  have hatom : g.formula 0 = g.formula 4 := by
    rw [formula_eq g 0, formula_eq g 4]
    rfl
  have hsound : g.Sound seen := by
    intro p hp
    obtain rfl : (0, 4) = p := by simpa [seen] using hp
    exact hatom
  have hequal := (equal_iff_formula_eq g).1 seen hsound
  have hs := FormulaStore.holds_add (.empty : FormulaStore Unit fun _ => ()) f
  have ht := FormulaStore.holds_add s.store f
  refine ⟨hsound, (hequal 3 7).1.2 ?_, fun h => ?_, rfl⟩
  · exact ((ht.formula_eq 3 s.ref_lt).trans hs.formula_ref).trans ht.formula_ref.symm
  · have hdiffer := (hequal 0 1).1.1 h
    rw [formula_eq g 0, formula_eq g 1] at hdiffer
    have hatoms : (Formula.atom (.bare "A") : Condition) = .atom (.bare "B") := hdiffer
    exact absurd hatoms (by decide)

end FormulaGraph

/-! ## Formulas laid down to be compared -/

/-- Formulas that are laid down are the same just if they are equal. -/
theorem Formula.same_iff (f g : Condition) : Formula.same f g ↔ f = g := by
  let x := FormulaStore.add (.empty : FormulaStore UInt64 Layer.digest) f
  have hf := FormulaStore.holds_add (.empty : FormulaStore UInt64 Layer.digest) f
  have hg := FormulaStore.holds_add x.store g
  have hsame : Formula.same f g = (x.store.add g).store.graph.same x.ref (x.store.add g).ref := rfl
  rw [hsame, FormulaGraph.same_iff_formula_eq, hg.formula_ref, hg.formula_eq _ x.ref_lt,
    hf.formula_ref]

end Conditionals
