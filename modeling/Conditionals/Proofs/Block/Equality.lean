/-
Conditionals.Proofs.Block.Equality — comparing blocks with shared parts
decides whether they are the same tree.

* `BlockGraph.block` — the block that a reference stands for, with nothing
  shared;
* `BlockGraph.sameFrom_iff` — a list of pairs is worked off to the end just
  if each of them stands for one block twice, given that the pairs of
  formulas that need no comparing are sound;
* `BlockGraph.same_iff_block_eq` — a comparison says whether two references
  stand for one block, references to one block have one digest, and a set
  of blocks has one element for each tree;
* `Block.sameAll_iff`, `Block.sameDigests_of_sameAll`,
  `Block.byValue_compare` — the same for blocks that are laid down to be
  compared, and `SourceFile.same_iff` for files of such blocks.

One set of pairs of formulas is handed on from block to block, so a formula
that was compared in one block is skipped in all later ones. It stays sound
on the way (`BlockGraph.equalLayers_eq_some`), and where a comparison stops
early nothing is handed on. So what was skipped was equal.
-/
import Conditionals.Proofs.Block.Forest
import Conditionals.Proofs.Comparison
import Conditionals.Proofs.Formula.Equality

namespace Conditionals

open scoped Conditionals.Graph

/-! ## The block of a reference -/

/-- The block with an outermost layer. -/
def BlockLayer.block (b : BlockLayer Condition Block) : Block :=
  ⟨b.startLine, b.endLine, b.path, b.condition, b.presence, b.children⟩

theorem BlockLayer.alike_iff {ι κ : Type} {a b : BlockLayer ι κ} :
    a.alike b = true ↔ a.startLine = b.startLine ∧ a.endLine = b.endLine ∧ a.path = b.path ∧
      a.children.length = b.children.length := by
  simp [alike, and_assoc]

/-- Rows of one length have the same values if the items at each place have. -/
theorem map_eq_map_iff_zip {κ β : Type} {f : κ → β} {ks ls : List κ} :
    ks.map f = ls.map f ↔ ks.length = ls.length ∧ ∀ p ∈ ks.zip ls, f p.1 = f p.2 := by
  induction ks generalizing ls with
  | nil => cases ls <;> simp
  | cons k ks ih =>
    cases ls with
    | nil => simp
    | cons l ls =>
      simp only [List.map_cons, List.cons.injEq, ih, List.length_cons, Nat.add_right_cancel_iff,
        List.zip_cons_cons, List.forall_mem_cons]
      exact and_left_comm

namespace BlockGraph

variable {ι κ δ : Type} {digest : Layer δ → δ} {digestBlock : BlockLayer δ δ → δ}
  {g : BlockGraph ι κ δ digest digestBlock} {k l : κ}

theorem size_lt_of_mem_children (h : l ∈ (g.layer k).children) : g.size l < g.size k := by
  have hle := List.le_sum_of_mem (List.mem_map_of_mem (f := g.size) h)
  have hsize : g.size k = 1 + ((g.layer k).children.map g.size).sum :=
    Graph.unfoldedSize_eq _ _ _
  omega

/-- The block that a reference stands for. -/
def block (g : BlockGraph ι κ δ digest digestBlock) (k : κ) : Block :=
  ⟨(g.layer k).startLine, (g.layer k).endLine, (g.layer k).path,
    g.formulas.formula (g.layer k).condition, g.formulas.formula (g.layer k).presence,
    (g.layer k).children.attach.map fun c => g.block c.1⟩
  termination_by g.size k
  decreasing_by exact size_lt_of_mem_children c.2

theorem block_eq (g : BlockGraph ι κ δ digest digestBlock) (k : κ) :
    g.block k = ((g.layer k).map g.formulas.formula g.block).block := by
  rw [block, List.attach_map_val]
  rfl

/-- References stand for one block if their layers are alike, their conditions are the same, and
so are their children, pair by pair. -/
theorem block_eq_iff : g.block k = g.block l ↔
    (g.layer k).alike (g.layer l) = true ∧
      g.formulas.formula (g.layer k).condition = g.formulas.formula (g.layer l).condition ∧
      g.formulas.formula (g.layer k).presence = g.formulas.formula (g.layer l).presence ∧
      ∀ p ∈ (g.layer k).children.zip (g.layer l).children, g.block p.1 = g.block p.2 := by
  rw [block_eq g k, block_eq g l, BlockLayer.alike_iff]
  simp only [BlockLayer.map, BlockLayer.block, Block.mk.injEq, map_eq_map_iff_zip]
  tauto

/-- References to one block have one digest. -/
theorem stamp_eq_of_block_eq (h : g.block k = g.block l) : g.stamp k = g.stamp l := by
  induction k using g.acyclic.induction generalizing l with
  | _ k ih =>
    obtain ⟨halike, hcondition, hpresence, hchildren⟩ := block_eq_iff.1 h
    obtain ⟨hstart, hend, hpath, hlength⟩ := BlockLayer.alike_iff.1 halike
    have hstamps : (g.layer k).children.map g.stamp = (g.layer l).children.map g.stamp :=
      map_eq_map_iff_zip.2 ⟨hlength, fun p hp =>
        ih p.1 (List.of_mem_zip hp).1 (hchildren p hp)⟩
    rw [g.stamp_eq k, g.stamp_eq l]
    refine congrArg digestBlock ?_
    simp only [BlockLayer.map, hstart, hend, hpath, hstamps,
      FormulaGraph.stamp_eq_digestBy, hcondition, hpresence]

/-! ## Comparing -/

section comparing

variable [DecidableEq ι] [Hashable ι] [DecidableEq δ] {seen seen' : FormulaGraph.Seen ι}

/-- Blocks that agree apart from their children leave a sound set of pairs behind. -/
theorem equalLayers_eq_some (hseen : g.formulas.Sound seen)
    (h : g.equalLayers seen k l = some seen') :
    (g.layer k).alike (g.layer l) = true ∧
      g.formulas.formula (g.layer k).condition = g.formulas.formula (g.layer l).condition ∧
      g.formulas.formula (g.layer k).presence = g.formulas.formula (g.layer l).presence ∧
      g.formulas.Sound seen' := by
  unfold equalLayers at h
  split at h
  case isTrue => cases h
  case isFalse =>
    split at h
    case isTrue halike =>
      obtain ⟨between, hcondition, hpresence⟩ := Option.bind_eq_some_iff.1 h
      obtain ⟨hc, hbetween⟩ := FormulaGraph.formula_eq_of_equal hseen hcondition
      obtain ⟨hp, hseen'⟩ := FormulaGraph.formula_eq_of_equal hbetween hpresence
      exact ⟨halike, hc, hp, hseen'⟩
    case isFalse => cases h

/-- References to one block agree. -/
theorem exists_equalLayers (hseen : g.formulas.Sound seen) (h : g.block k = g.block l) :
    ∃ seen', g.equalLayers seen k l = some seen' := by
  obtain ⟨halike, hcondition, hpresence, -⟩ := block_eq_iff.1 h
  obtain ⟨between, hc⟩ := Option.isSome_iff_exists.1
    ((FormulaGraph.isSome_equal_iff hseen).2 hcondition)
  have hbetween := (FormulaGraph.formula_eq_of_equal hseen hc).2
  obtain ⟨seen', hp⟩ := Option.isSome_iff_exists.1
    ((FormulaGraph.isSome_equal_iff hbetween).2 hpresence)
  refine ⟨seen', ?_⟩
  rw [equalLayers, if_neg (not_not.2 (stamp_eq_of_block_eq h)), if_pos halike, hc]
  exact hp

theorem mem_pairUp {pending : List (κ × κ)} {ks ls : List κ} {p : κ × κ} :
    p ∈ pairUp pending ks ls ↔ p ∈ ks.zip ls ∨ p ∈ pending := by
  simp [pairUp]

variable [DecidableEq κ]

/-- Whatever sound set of pairs is handed on, a list of pairs is worked off to the end just if each
pair stands for one block twice. -/
theorem sameFrom_iff {pending : List (κ × κ)} (hseen : g.formulas.Sound seen) :
    g.sameFrom seen pending = true ↔ ∀ p ∈ pending, g.block p.1 = g.block p.2 := by
  fun_induction g.sameFrom seen pending with
  | case1 => simp
  | case2 seen k pending ih => simp [ih hseen]
  | case3 seen k l pending _ hnone =>
    simp only [Bool.false_eq_true, List.forall_mem_cons, false_iff, not_and]
    intro h
    obtain ⟨seen', hsome⟩ := exists_equalLayers hseen h
    rw [hnone] at hsome
    cases hsome
  | case4 seen k l pending _ seen' hsome ih =>
    obtain ⟨halike, hcondition, hpresence, hseen'⟩ := equalLayers_eq_some hseen hsome
    rw [ih hseen', List.forall_mem_cons, block_eq_iff]
    simp only [mem_pairUp, or_imp, forall_and, halike, hcondition, hpresence, true_and]

theorem same_iff : g.same k l = true ↔ g.block k = g.block l := by
  rw [same, sameFrom_iff g.formulas.sound_empty]
  simp

theorem sameAll_iff {ks ls : List κ} :
    g.sameAll ks ls = true ↔ ks.map g.block = ls.map g.block := by
  fun_induction g.sameAll ks ls with
  | case1 => simp
  | case2 k ks l ls ih => simp [same_iff, ih]
  | case3 ks ls hnil hcons =>
    cases ks with
    | nil =>
      cases ls with
      | nil => exact (hnil rfl rfl).elim
      | cons l ls => simp
    | cons k ks =>
      cases ls with
      | nil => simp
      | cons l ls => exact (hcons k ks l ls rfl rfl).elim

/-- Comparing the references of a row sorts them by their blocks. -/
theorem byValue_ofRow (g : BlockGraph ι κ δ digest digestBlock) (ks : List κ) :
    (Comparison.ofRow g.stamp g.same ks).ByValue g.block ks := by
  have hsame : ∀ k l, g.same k l = true ↔ g.block k = g.block l := fun _ _ => same_iff
  have hstamp : ∀ k l, g.block k = g.block l → g.stamp k = g.stamp l :=
    fun _ _ => stamp_eq_of_block_eq
  exact Comparison.byValue_ofRow hsame hstamp ks

/-- A comparison says whether two references stand for one block, with all blocks inside, and
references to one block have one digest. So a set of blocks has one element for each tree among
those that were put in. -/
theorem same_iff_block_eq (g : BlockGraph ι κ δ digest digestBlock) :
    (∀ k l, g.same k l = true ↔ g.block k = g.block l) ∧
    (∀ k l, g.block k = g.block l → g.stamp k = g.stamp l) ∧
    ∀ ks, (Comparison.ofRow g.stamp g.same ks).ByValue g.block ks :=
  ⟨fun _ _ => same_iff, fun _ _ => stamp_eq_of_block_eq, g.byValue_ofRow⟩

end comparing

end BlockGraph

/-! ## Blocks laid down -/

namespace BlockStore

variable {δ : Type} {digest : Layer δ → δ} {digestBlock : BlockLayer δ δ → δ}
  {s : BlockStore δ digest digestBlock}

/-- A store has grown: the entries that were there stand for what they stood for. -/
def Grows (s t : BlockStore δ digest digestBlock) : Prop :=
  ∀ k < s.size, t.graph.block k = s.graph.block k

theorem Grows.trans {t u : BlockStore δ digest digestBlock} (h : s.Grows t) (h' : t.Grows u)
    (hle : s.size ≤ t.size) : s.Grows u :=
  fun k hk => (h' k (Nat.lt_of_lt_of_le hk hle)).trans (h k hk)

/-- The last references of a store that has grown stand for several blocks, and all earlier ones
stand for what they stood for. -/
structure Added.Holds (a : Added s) (bs : List Block) : Prop where
  map_refs : a.refs.map a.store.graph.block = bs
  grows : s.Grows a.store

/-- References stand for what they stood for when the store grows further. -/
theorem Added.Holds.map_refs_of_grows {a : Added s} {bs : List Block}
    {t : BlockStore δ digest digestBlock} (h : a.Holds bs) (ht : a.store.Grows t) :
    a.refs.map t.graph.block = bs :=
  (List.map_congr_left fun r hr => ht r (a.refs_lt r hr)).trans h.map_refs

theorem lt_of_mem_children {k c : Nat} (h : c ∈ (s.graph.layer k).children) : c < k := by
  have hlayer : s.graph.layer k = s.layer k := rfl
  rw [hlayer, layer] at h
  split at h
  case h_1 entry hentry => exact s.children_lt k entry.1 entry.2 hentry c h
  case h_2 => cases h

theorem conditions_layer_lt {k : Nat} (h : k < s.size) :
    (s.layer k).condition < s.formulas.size ∧ (s.layer k).presence < s.formulas.size := by
  have hentry : s.entries[k]? = some s.entries[k] := Array.getElem?_eq_getElem h
  rw [layer, hentry]
  exact s.conditions_lt k _ _ hentry

/-- A store that keeps the layers and the formulas of another one has grown out of it. -/
theorem grows_of_layer {t : BlockStore δ digest digestBlock}
    (hlayer : ∀ k < s.size, t.layer k = s.layer k)
    (hformula : ∀ i < s.formulas.size, t.formulas.graph.formula i = s.formulas.graph.formula i) :
    s.Grows t := by
  intro k hk
  induction k using Nat.strongRecOn with
  | _ k ih =>
    have hsame : t.graph.layer k = s.graph.layer k := hlayer k hk
    obtain ⟨hcondition, hpresence⟩ := conditions_layer_lt hk
    rw [BlockGraph.block_eq, BlockGraph.block_eq, hsame]
    refine congrArg BlockLayer.block (BlockLayer.map_congr ?_ ?_ fun c hc => ?_)
    · exact hformula _ hcondition
    · exact hformula _ hpresence
    · have hlt := lt_of_mem_children hc
      exact ih c hlt (Nat.lt_trans hlt hk)

theorem grows_growFormulas {a : FormulaStore.Added s.formulas} {f : Condition} (h : a.Holds f) :
    s.Grows (s.growFormulas a) :=
  grows_of_layer (fun k hk => by
    have hentry : s.entries[k]? = some s.entries[k] := Array.getElem?_eq_getElem hk
    simp [layer, growFormulas, hentry]) h.formula_eq

theorem layer_push {b : BlockLayer Nat Nat}
    {hc : b.condition < s.formulas.size ∧ b.presence < s.formulas.size}
    {hk : ∀ c ∈ b.children, c < s.size} {k : Nat} (h : k < s.size) :
    (s.push b hc hk).layer k = s.layer k := by
  have hne : k ≠ s.entries.size := Nat.ne_of_lt h
  simp [layer, push, Array.getElem?_push, hne]

theorem grows_push (b : BlockLayer Nat Nat)
    (hc : b.condition < s.formulas.size ∧ b.presence < s.formulas.size)
    (hk : ∀ c ∈ b.children, c < s.size) : s.Grows (s.push b hc hk) :=
  grows_of_layer (fun _ h => layer_push h) fun _ _ => rfl

/-- The last entry of a store stands for its layer. -/
theorem block_push (b : BlockLayer Nat Nat)
    (hc : b.condition < s.formulas.size ∧ b.presence < s.formulas.size)
    (hk : ∀ c ∈ b.children, c < s.size) :
    (s.push b hc hk).graph.block s.size = (b.map s.formulas.graph.formula s.graph.block).block := by
  have hentry : (s.push b hc hk).layer s.size = b := by simp [layer, push, size]
  have hlayer : (s.push b hc hk).graph.layer s.size = b := hentry
  rw [BlockGraph.block_eq, hlayer]
  exact congrArg BlockLayer.block
    (BlockLayer.map_congr rfl rfl fun c hmem => grows_push b hc hk c (hk c hmem))

theorem holds_addLayer (startLine endLine : Int) (path : Option String)
    (condition presence : Condition) {refs : List Nat} {bs : List Block}
    (h : ∀ c ∈ refs, c < s.size) (hrefs : refs.map s.graph.block = bs) :
    (s.addLayer startLine endLine path condition presence refs h).Holds
      [⟨startLine, endLine, path, condition, presence, bs⟩] := by
  let x := s.formulas.add condition
  let y := x.store.add presence
  let grown := s.growFormulas (x.after y)
  have hx := FormulaStore.holds_add s.formulas condition
  have hy := FormulaStore.holds_add x.store presence
  have hgrown : s.Grows grown := grows_growFormulas (hx.after hy)
  have hlt : x.ref < grown.formulas.size ∧ y.ref < grown.formulas.size :=
    ⟨Nat.lt_of_lt_of_le x.ref_lt y.size_le, y.ref_lt⟩
  let b : BlockLayer Nat Nat := ⟨startLine, endLine, path, x.ref, y.ref, refs⟩
  have hk : ∀ c ∈ b.children, c < grown.size := h
  have hstore : (s.addLayer startLine endLine path condition presence refs h).store =
      grown.push b hlt hk := rfl
  constructor
  · have hcondition : grown.formulas.graph.formula x.ref = condition :=
      (hy.formula_eq x.ref x.ref_lt).trans hx.formula_ref
    have hpresence : grown.formulas.graph.formula y.ref = presence := hy.formula_ref
    have hchildren : refs.map grown.graph.block = bs :=
      (List.map_congr_left fun c hc => hgrown c (h c hc)).trans hrefs
    have hblock : (grown.push b hlt hk).graph.block s.size =
        ⟨startLine, endLine, path, condition, presence, bs⟩ := by
      refine (block_push b hlt hk).trans ?_
      simp only [b, BlockLayer.map, BlockLayer.block, hcondition, hpresence, hchildren]
    rw [hstore]
    exact congrArg (fun b => [b]) hblock
  · rw [hstore]
    exact hgrown.trans (grows_push b hlt hk) (Nat.le_refl _)

theorem holds_add {b : Block} (h : (s.addAll b.children).Holds b.children) :
    (s.add b).Holds [b] := by
  obtain ⟨startLine, endLine, path, condition, presence, children⟩ := b
  have hself := holds_addLayer startLine endLine path condition presence
    (s.addAll children).refs_lt h.map_refs
  exact ⟨hself.map_refs, h.grows.trans hself.grows (s.addAll children).size_le⟩

/-- The references of blocks that were laid down stand for them. -/
theorem holds_addAll (s : BlockStore δ digest digestBlock) (bs : List Block) :
    (s.addAll bs).Holds bs := by
  induction bs using Block.forest_induction generalizing s with
  | nil => exact ⟨rfl, fun _ _ => rfl⟩
  | cons b bs ihc ih =>
    have hb := holds_add (ihc s)
    have hbs := ih (s.add b).store
    have hfirst : (s.add b).refs.map ((s.add b).store.addAll bs).store.graph.block = [b] :=
      hb.map_refs_of_grows hbs.grows
    refine ⟨?_, hb.grows.trans hbs.grows (s.add b).size_le⟩
    rw [addAll, List.map_append, hfirst, hbs.map_refs, List.singleton_append]

end BlockStore

namespace Block

/-- Rows of blocks that are laid down are the same just if they are equal. -/
theorem sameAll_iff {bs cs : List Block} : sameAll bs cs = true ↔ bs = cs := by
  let x := BlockStore.addAll (.empty : Store) bs
  let y := x.store.addAll cs
  have hx := BlockStore.holds_addAll (.empty : Store) bs
  have hy := BlockStore.holds_addAll x.store cs
  have hfirst : x.refs.map y.store.graph.block = bs := hx.map_refs_of_grows hy.grows
  have hsame : sameAll bs cs = y.store.graph.sameAll x.refs y.refs := rfl
  rw [hsame, BlockGraph.sameAll_iff, hfirst, hy.map_refs]

/-- Rows of blocks that are the same have the same digests. -/
theorem sameDigests_of_sameAll {bs cs : List Block} (h : sameAll bs cs = true) :
    sameDigests bs cs = true := by
  obtain rfl := sameAll_iff.1 h
  let x := BlockStore.addAll (.empty : Store) bs
  let y := x.store.addAll bs
  have hx := BlockStore.holds_addAll (.empty : Store) bs
  have hy := BlockStore.holds_addAll x.store bs
  have hfirst : x.refs.map y.store.graph.block = bs := hx.map_refs_of_grows hy.grows
  obtain ⟨hlength, hzip⟩ := map_eq_map_iff_zip.1 (hfirst.trans hy.map_refs.symm)
  have hstamps : x.refs.map y.store.graph.stamp = y.refs.map y.store.graph.stamp :=
    map_eq_map_iff_zip.2 ⟨hlength, fun p hp => BlockGraph.stamp_eq_of_block_eq (hzip p hp)⟩
  exact decide_eq_true hstamps

/-- Comparing blocks sorts them by their trees. -/
theorem byValue_compare (bs : List Block) : (compare bs).ByValue id bs := by
  let x := BlockStore.addAll (.empty : Store) bs
  have hx := BlockStore.holds_addAll (.empty : Store) bs
  have h : (compare bs).ByValue x.store.graph.block x.refs := x.store.graph.byValue_ofRow x.refs
  simpa only [x, hx.map_refs] using h.map

end Block

/-- Files are the same just if they have one path and equal blocks. -/
theorem SourceFile.same_iff {f g : SourceFile} : f.same g = true ↔ f = g := by
  obtain ⟨path, blocks⟩ := f
  obtain ⟨path', blocks'⟩ := g
  simp [same, Block.sameAll_iff]

end Conditionals
