/-
Conditionals.Proofs.Block.Walk — the walk through a tree of blocks.

The walk holds one flat list of trees still to be visited, siblings from
all levels among them.

* `Block.visit` — what visiting the first tree leaves on that list. After
  any number of visits, what is still to come is the walk through the trees
  that are left (`Block.drop_walkAll`), and each visit takes one block off
  (`Block.length_walkAll`); so the walk ends;
* `Block.walk_eq` — the walk of a block is the block and the walks of its
  children, one after another;
* `Block.at?` — the block at a place, and `Block.places` — the places with
  the blocks there. They are all places (`Block.mem_places`), in
  lexicographic order (`Block.pairwise_places`), and the blocks are those of
  the walk (`Block.map_snd_places`); so the walk is at each place once.
-/
import Conditionals.Proofs.Block.Forest
import Mathlib.Data.List.Lex
import Mathlib.Logic.Function.Iterate

namespace Conditionals.Block

/-! ## Visits -/

/-- What visiting the first tree leaves to be visited: its children in its place. -/
def visit : List Block → List Block
  | [] => []
  | b :: others => b.children ++ others

theorem walkAll_eq_cons (b : Block) (others : List Block) :
    walkAll (b :: others) = b :: walkAll (visit (b :: others)) := by
  rw [walkAll, visit]

theorem head?_walkAll (bs : List Block) : (walkAll bs).head? = bs.head? := by
  cases bs with
  | nil => rw [walkAll]
  | cons b bs => rw [walkAll_eq_cons]; rfl

theorem walkAll_eq_nil_iff {bs : List Block} : walkAll bs = [] ↔ bs = [] := by
  rw [← List.head?_eq_none_iff, head?_walkAll, List.head?_eq_none_iff]

theorem tail_walkAll (bs : List Block) : (walkAll bs).tail = walkAll (visit bs) := by
  cases bs with
  | nil => rw [visit, walkAll]; rfl
  | cons b bs => rw [walkAll_eq_cons]; rfl

/-- After some visits, the walk goes on through what is left. -/
theorem drop_walkAll (bs : List Block) (n : Nat) :
    (walkAll bs).drop n = walkAll (visit^[n] bs) := by
  induction n generalizing bs with
  | zero => rfl
  | succ n ih =>
    rw [Function.iterate_succ_apply, ← ih, ← tail_walkAll, List.drop_tail]

theorem length_walkAll (bs : List Block) : (walkAll bs).length = countAll bs := by
  induction bs using forest_induction with
  | nil => rw [walkAll]; rfl
  | cons b bs ihc ih =>
    rw [walkAll_cons, countAll_cons, List.length_cons, List.length_append, ihc, ih]
    omega

/-- The block that is visited next is the next one of the walk. -/
theorem getElem?_walkAll (bs : List Block) (n : Nat) :
    (walkAll bs)[n]? = (visit^[n] bs).head? := by
  rw [← List.head?_drop, drop_walkAll, head?_walkAll]

/-- No tree is left just when there have been as many visits as there are blocks. -/
theorem iterate_visit_eq_nil_iff {bs : List Block} {n : Nat} :
    visit^[n] bs = [] ↔ countAll bs ≤ n := by
  rw [← walkAll_eq_nil_iff, ← drop_walkAll, List.drop_eq_nil_iff, length_walkAll]

/-! ## One tree after another -/

theorem walkAll_eq_flatMap (bs : List Block) : walkAll bs = bs.flatMap walk := by
  induction bs with
  | nil => rw [walkAll]; rfl
  | cons b bs ih => rw [← List.singleton_append, walkAll_append, ih]; rfl

/-- The walk of a block is the block and then the walks of its children. -/
theorem walk_eq (b : Block) : b.walk = b :: b.children.flatMap walk := by
  rw [walk, walkAll, List.append_nil, walkAll_eq_flatMap]

/-! ## Places -/

/-- The block at a place inside a block. A place is the way to it from the outside: the number of
a child, of a child of that one and so on. -/
def at? (b : Block) : List Nat → Option Block
  | [] => some b
  | i :: place => b.children[i]?.bind (·.at? place)

/-- The places in several trees, the first of which has the number `i`, with the blocks there. -/
def placesFrom (i : Nat) : List Block → List (List Nat × Block)
  | [] => []
  | b :: bs =>
    (([], b) :: placesFrom 0 b.children).map (Prod.map (i :: ·) id) ++ placesFrom (i + 1) bs
  termination_by bs => countAll bs
  decreasing_by
    · rw [countAll_cons]
      omega
    · rw [countAll_cons]
      omega

/-- The places in a block, with the blocks there. -/
def places (b : Block) : List (List Nat × Block) :=
  ([], b) :: placesFrom 0 b.children

theorem placesFrom_nil (i : Nat) : placesFrom i [] = [] := by
  rw [placesFrom]

theorem placesFrom_cons (i : Nat) (b : Block) (bs : List Block) :
    placesFrom i (b :: bs) = b.places.map (Prod.map (i :: ·) id) ++ placesFrom (i + 1) bs := by
  rw [placesFrom, places]

/-- The blocks at the places are those of the walk, in its order. -/
theorem map_snd_placesFrom (i : Nat) (bs : List Block) :
    (placesFrom i bs).map Prod.snd = walkAll bs := by
  induction bs using forest_induction generalizing i with
  | nil => rw [placesFrom_nil, walkAll]; rfl
  | cons b bs ihc ih =>
    have hplaces : b.places.map Prod.snd = b :: walkAll b.children := by
      rw [places, List.map_cons, ihc]
    rw [placesFrom_cons, List.map_append, List.map_map, ih, walkAll_cons, ← List.cons_append,
      ← hplaces]
    rfl

theorem map_snd_places (b : Block) : b.places.map Prod.snd = b.walk := by
  rw [places, List.map_cons, map_snd_placesFrom, walk, walkAll, List.append_nil]

/-- A place in some of several trees, the first of which has the number `i`, and the block there. -/
def IsPlace (i : Nat) (bs : List Block) (p : List Nat) (c : Block) : Prop :=
  ∃ j q b, p = (i + j) :: q ∧ bs[j]? = some b ∧ b.at? q = some c

variable {b c : Block} {bs : List Block} {i : Nat} {p : List Nat}

theorem at?_eq_some_iff : b.at? p = some c ↔ p = [] ∧ b = c ∨ IsPlace 0 b.children p c := by
  cases p with
  | nil => simp [at?, IsPlace]
  | cons j q => simp [at?, IsPlace, Option.bind_eq_some_iff]

theorem isPlace_cons_iff :
    IsPlace i (b :: bs) p c ↔
      (∃ q, p = i :: q ∧ b.at? q = some c) ∨ IsPlace (i + 1) bs p c := by
  constructor
  · rintro ⟨j, q, a, rfl, ha, hc⟩
    cases j with
    | zero =>
      cases ha
      exact .inl ⟨q, rfl, hc⟩
    | succ j => exact .inr ⟨j, q, a, by rw [Nat.add_right_comm, Nat.add_assoc], ha, hc⟩
  · rintro (⟨q, rfl, hc⟩ | ⟨j, q, a, rfl, ha, hc⟩)
    · exact ⟨0, q, b, rfl, rfl, hc⟩
    · exact ⟨j + 1, q, a, by rw [Nat.add_right_comm, Nat.add_assoc], ha, hc⟩

theorem mem_places_of (h : (p, c) ∈ placesFrom 0 b.children ↔ IsPlace 0 b.children p c) :
    (p, c) ∈ b.places ↔ b.at? p = some c := by
  rw [places, List.mem_cons, h, at?_eq_some_iff, Prod.mk.injEq, eq_comm (a := c)]

theorem mem_placesFrom : (p, c) ∈ placesFrom i bs ↔ IsPlace i bs p c := by
  induction bs using forest_induction generalizing i p with
  | nil => simp [placesFrom_nil, IsPlace]
  | cons b bs ihc ih =>
    rw [placesFrom_cons, List.mem_append, ih, isPlace_cons_iff]
    refine or_congr_left ?_
    constructor
    · intro h
      obtain ⟨⟨q, d⟩, hq, heq⟩ := List.mem_map.1 h
      cases heq
      exact ⟨q, rfl, (mem_places_of ihc).1 hq⟩
    · rintro ⟨q, rfl, hc⟩
      exact List.mem_map.2 ⟨(q, c), (mem_places_of ihc).2 hc, rfl⟩

/-- All places in a block are listed. -/
theorem mem_places : (p, c) ∈ b.places ↔ b.at? p = some c :=
  mem_places_of mem_placesFrom

/-- The block itself is in front of its children. -/
theorem pairwise_places_of
    (h : (placesFrom 0 b.children).Pairwise fun x y => x.1 < y.1) :
    b.places.Pairwise fun x y => x.1 < y.1 := by
  refine List.pairwise_cons.2 ⟨fun ⟨p, c⟩ hp => ?_, h⟩
  obtain ⟨j, q, a, rfl, -, -⟩ := mem_placesFrom.1 hp
  exact List.nil_lt_cons _ _

/-- The places are listed in lexicographic order. -/
theorem pairwise_placesFrom (i : Nat) (bs : List Block) :
    (placesFrom i bs).Pairwise fun x y => x.1 < y.1 := by
  induction bs using forest_induction generalizing i with
  | nil =>
    rw [placesFrom_nil]
    exact .nil
  | cons b bs ihc ih =>
    rw [placesFrom_cons, List.pairwise_append, List.pairwise_map]
    refine ⟨(pairwise_places_of (ihc 0)).imp fun h => ?_, ih (i + 1), fun x hx ⟨p, c⟩ hp => ?_⟩
    · exact List.cons_lt_cons_iff.2 (.inr ⟨rfl, h⟩)
    · obtain ⟨y, -, rfl⟩ := List.mem_map.1 hx
      obtain ⟨j, q, a, rfl, -, -⟩ := mem_placesFrom.1 hp
      exact List.cons_lt_cons_iff.2 (.inl (by omega))

theorem pairwise_places (b : Block) : b.places.Pairwise fun x y => x.1 < y.1 :=
  pairwise_places_of (pairwise_placesFrom 0 b.children)

end Conditionals.Block
