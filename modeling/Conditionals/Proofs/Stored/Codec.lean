/-
Conditionals.Proofs.Stored.Codec — writing and reading stored data undo one
another.

* `Codec` — values, how they are written as plain data and how they are read
  from them;
* `Codec.Faithful` — what is written is read again, and what is read is
  written again as it was, apart from unknown fields and the order of the
  fields;
* `Disk.path_of_stored`, `SourceFile.stored_injective` — the files of a disk
  are among those that are read again, and storing them loses nothing;
* `Formula.evaluate_operandGraph`, `Block.evaluate_childGraph` — writing one
  node after another comes to the same;
* `stored_faithful` — formulas, blocks and files are stored faithfully, also
  if their parts, or the parts of the data, are shared objects.
-/
import Conditionals.Disk.Extract
import Conditionals.Proofs.Reader.Structure
import Conditionals.Proofs.Stored.Cleaning

namespace Conditionals

/-! ## What is written is read again -/

theorem FormulaKind.formulaKind_object (k : FormulaKind) (fields : List (String × Data)) :
    (k.object fields).formulaKind = .ok k :=
  Data.formulaKind_eq_ok_iff.2 rfl

theorem Formula.storedAs_toData (f : Condition) : f.StoredAs f.toData := by
  induction f with
  | const value => exact FormulaKind.formulaKind_object _ _
  | atom a =>
    cases a with
    | bare name => exact ⟨FormulaKind.formulaKind_object _ _, rfl⟩
    | defined name => exact ⟨FormulaKind.formulaKind_object _ _, rfl⟩
  | neg f ih => exact ⟨FormulaKind.formulaKind_object _ _, f.toData, rfl, ih⟩
  | join op f g ihf ihg =>
    exact ⟨FormulaKind.formulaKind_object _ _, f.toData, g.toData, rfl, rfl, ihf, ihg⟩

namespace Block

theorem allStoredAs_allToData {path : Data} {bs : List StoredBlock}
    (h : ∀ b ∈ walkAll bs, b.path.data = path) : AllStoredAs path bs (allToData bs) := by
  induction bs using forest_induction with
  | nil => rfl
  | cons b bs ihc ih =>
    have hpath : b.path.data = path := h b (mem_walkAll_cons.2 (.inl rfl))
    have hchildren := ihc fun c hc => h c (mem_walkAll_cons.2 (.inr (.inl hc)))
    have hbs := ih fun c hc => h c (mem_walkAll_cons.2 (.inr (.inr hc)))
    obtain ⟨startLine, endLine, own, condition, presence, children⟩ := b
    exact ⟨_, _, rfl, ⟨hpath, rfl, rfl, ⟨_, rfl, condition.storedAs_toData⟩,
      ⟨_, rfl, presence.storedAs_toData⟩, _, rfl, hchildren⟩, hbs⟩

theorem storedAs_toData {path : Data} {b : StoredBlock} (h : ∀ c ∈ b.walk, c.path.data = path) :
    b.StoredAs path b.toData := by
  obtain ⟨d, ds, heq, hb, -⟩ := allStoredAs_allToData h
  cases heq
  exact hb

end Block

theorem SourceFile.toSourceFile_toData {f : StoredFile}
    (h : ∀ b ∈ Block.walkAll f.blocks, b.path.data = f.path) : f.toData.toSourceFile = .ok f :=
  Data.toSourceFile_eq_ok_iff.2 ⟨rfl, _, rfl, Block.allStoredAs_allToData h⟩

/-! ## Files on a disk -/

/-- The blocks of a file on a disk have its path. -/
theorem Disk.path_of_extract {disk : Disk} {name encoding : String} {f : SourceFile}
    (h : disk.extract name encoding = .ok f) : ∀ b ∈ Block.walkAll f.blocks, b.path = f.path := by
  unfold extract at h
  split at h
  case h_1 => cases h
  case h_2 source _ =>
    split at h
    case h_1 => cases h
    case h_2 blocks hblocks =>
      cases h
      intro b hb
      have hcomposed : Block.Composed (some name) (Formula.chain? []) blocks :=
        (LineSource.listing_of_read hblocks).2.2
      obtain ⟨around, henclosed⟩ := Block.exists_enclosed_iff.2 hb
      exact (hcomposed.presence_eq henclosed).1

/-- Storing a file loses nothing of it. -/
theorem SourceFile.stored_injective : Function.Injective stored := by
  have hint : Function.Injective Scalar.int := by
    intro m n h
    cases h
    rfl
  have htext : Function.Injective Scalar.ofText? := by
    intro s t h
    cases s <;> cases t <;> cases h <;> rfl
  rintro ⟨path, blocks⟩ ⟨path', blocks'⟩ h
  obtain ⟨hpath, hblocks⟩ := SourceFile.mk.inj h
  obtain rfl := htext (Scalar.ext hpath)
  obtain rfl := Block.mapAll_injective hint htext hblocks
  rfl

/-- The blocks of a file on a disk have its path when they are stored, too. -/
theorem Disk.path_of_stored {disk : Disk} {name encoding : String} {f : SourceFile}
    (h : disk.extract name encoding = .ok f) :
    ∀ b ∈ Block.walkAll f.stored.blocks, b.path.data = f.stored.path := by
  intro b hb
  rw [SourceFile.stored, Block.walkAll_mapAll] at hb
  obtain ⟨c, hc, rfl⟩ := List.mem_map.1 hb
  rw [Block.map_eq, path_of_extract h c hc]
  rfl

/-! ## Writing what counts as equal -/

/-- Blocks that are equal, if scalars are seen through a view, are written as data that are. -/
theorem Block.sameBy_allToData {V : Type} {view : Scalar → V} {bs cs : List StoredBlock}
    (h : mapAll view view bs = mapAll view view cs) :
    List.Forall₂ (Data.SameBy view) (allToData bs) (allToData cs) := by
  induction bs using forest_induction generalizing cs with
  | nil =>
    cases cs with
    | nil => exact .nil
    | cons c cs => cases h
  | cons b bs ihc ih =>
    cases cs with
    | nil => cases h
    | cons c cs =>
      obtain ⟨startLine, endLine, path, condition, presence, children⟩ := b
      obtain ⟨startLine', endLine', path', condition', presence', children'⟩ := c
      simp only [mapAll, map, List.cons.injEq, mk.injEq] at h
      obtain ⟨⟨hstart, hend, -, rfl, rfl, hchildren⟩, hbs⟩ := h
      refine .cons (Data.sameBy_object_of_forall₂ ?_) (ih hbs)
      exact .cons ⟨rfl, Data.sameBy_scalar hstart⟩ (.cons ⟨rfl, Data.sameBy_scalar hend⟩
        (.cons ⟨rfl, .refl _⟩ (.cons ⟨rfl, .refl _⟩
          (.cons ⟨rfl, Data.sameBy_list (ihc hchildren)⟩ .nil))))

theorem Block.sameBy_toData {V : Type} {view : Scalar → V} {b c : StoredBlock}
    (h : b.map view view = c.map view view) : b.toData.SameBy view c.toData := by
  have hall : mapAll view view [b] = mapAll view view [c] := by
    simp only [mapAll, h]
  have hdata := sameBy_allToData hall
  cases hdata with
  | cons hb _ => exact hb

/-! ## Codecs -/

/-- How values are written as plain data and read from them. -/
structure Codec (α : Type) where
  write : α → Data
  read : Data → Except StoredFault α
  /-- Nothing of the value is lost by writing it. -/
  Storable : α → Prop
  /-- The values are equal, if scalars are seen through a view. -/
  SameBy {V : Type} (view : Scalar → V) : α → α → Prop
  /-- What the data stand for. -/
  role : Role
  /-- The data have lists where blocks are to stand. -/
  Listed : Data → Prop

namespace Codec

variable {α : Type} {c : Codec α}

/-- Writing and reading undo one another. -/
structure Faithful (c : Codec α) : Prop where
  read_write : ∀ a, c.Storable a → c.read (c.write a) = .ok a
  write_read : ∀ d a, c.Listed d → c.read d = .ok a → (c.write a).Same (d.clean c.role)
  /-- Data without unknown fields that are read as equal values are equal, whichever scalars count
  as equal. -/
  unique : ∀ {V : Type} (view : Scalar → V) d e a b, c.Listed d → c.Listed e →
    d.clean c.role = d → e.clean c.role = e → c.read d = .ok a → c.read e = .ok b →
    c.SameBy view a b → d.SameBy view e

theorem faithful_of_write_read (hread : ∀ a, c.Storable a → c.read (c.write a) = .ok a)
    (hwrite : ∀ d a, c.Listed d → c.read d = .ok a → (d.clean c.role).Same (c.write a))
    (hsame : ∀ {V : Type} (view : Scalar → V) a b, c.SameBy view a b →
      (c.write a).SameBy view (c.write b)) : c.Faithful where
  read_write := hread
  write_read d a hlisted h := (hwrite d a hlisted h).symm
  unique view d e a b hd he hcleand hcleane hreadd hreade hab := by
    have hd := hwrite d a hd hreadd
    have he := hwrite e b he hreade
    rw [hcleand] at hd
    rw [hcleane] at he
    exact (hd.by view).trans ((hsame view a b hab).trans (he.by view).symm)

/-- Formulas. -/
def formulas : Codec Condition where
  write := Formula.toData
  read := Data.toFormula
  Storable _ := True
  SameBy _ f g := f = g
  role := .formula
  Listed _ := True

/-- Blocks with one path. -/
def blocks (path : Data) : Codec StoredBlock where
  write := Block.toData
  read := Data.toBlock path
  Storable b := ∀ c ∈ b.walk, c.path.data = path
  SameBy view b c := b.map view view = c.map view view
  role := .block
  Listed := Data.BlocksListed "children"

/-- Files whose blocks all belong to them. -/
def files : Codec StoredFile where
  write := SourceFile.toData
  read := Data.toSourceFile
  Storable f := ∀ b ∈ Block.walkAll f.blocks, b.path.data = f.path
  SameBy view f g := f.path.SameBy view g.path ∧
    Block.mapAll view view f.blocks = Block.mapAll view view g.blocks
  role := .file
  Listed := Data.BlocksListed "blocks"

theorem formulas_faithful : formulas.Faithful := by
  refine faithful_of_write_read (fun f _ => Data.toFormula_eq_ok_iff.2 f.storedAs_toData)
    (fun _ _ _ h => (Data.toFormula_eq_ok_iff.1 h).same_toData) ?_
  rintro V view f _ rfl
  exact .refl _

theorem blocks_faithful (path : Data) : (blocks path).Faithful :=
  faithful_of_write_read (fun _ h => Data.toBlock_eq_ok_iff.2 (Block.storedAs_toData h))
    (fun _ _ hlisted h => (Data.toBlock_eq_ok_iff.1 h).same_toData hlisted)
    fun _ _ _ h => Block.sameBy_toData h

theorem files_faithful : files.Faithful := by
  refine faithful_of_write_read (fun _ h => SourceFile.toSourceFile_toData h) ?_ ?_
  · intro d f hlisted h
    obtain ⟨hpath, items, hitems, hstored⟩ := Data.toSourceFile_eq_ok_iff.1 h
    exact SourceFile.same_toData hpath hitems hstored hlisted
  · rintro V view f g ⟨hpath, hblocks⟩
    refine Data.sameBy_object_of_forall₂ ?_
    exact .cons ⟨rfl, hpath⟩
      (.cons ⟨rfl, Data.sameBy_list (Block.sameBy_allToData hblocks)⟩ .nil)

end Codec

/-! ## Writing shared objects -/

namespace Formula

theorem evaluate_operandGraph (f : Condition) :
    operandGraph.evaluate nodeToData f = .ok f.toData := by
  have hchildren : ∀ f, operandGraph.children f = .ok f.operands := fun _ => rfl
  induction f with
  | const value => rw [Dag.evaluate_eq, hchildren]; rfl
  | atom a =>
    rw [Dag.evaluate_eq, hchildren]
    cases a <;> rfl
  | neg f ih =>
    rw [Dag.evaluate_eq, hchildren]
    simp [operands, valuesFromLast, ih, nodeToData, toData, bind, Except.bind, pure, Except.pure]
  | join op f g ihf ihg =>
    rw [Dag.evaluate_eq, hchildren]
    simp [operands, valuesFromLast, ihf, ihg, nodeToData, toData, bind, Except.bind, pure,
      Except.pure]

end Formula

namespace Block

theorem nodeToData_allToData (b : StoredBlock) :
    b.nodeToData (allToData b.children) = .ok b.toData := by
  cases b
  rfl

theorem evaluate_childGraph_of_children {b : StoredBlock}
    (h : valuesFromLast (childGraph.evaluate nodeToData) b.children =
      .ok (allToData b.children)) :
    childGraph.evaluate nodeToData b = .ok b.toData := by
  have hchildren : childGraph.children b = .ok b.children := rfl
  rw [Dag.evaluate_eq, hchildren, Except.bind, h]
  exact b.nodeToData_allToData

theorem valuesFromLast_evaluate_childGraph (bs : List StoredBlock) :
    valuesFromLast (childGraph.evaluate nodeToData) bs = .ok (allToData bs) := by
  induction bs using forest_induction with
  | nil => rfl
  | cons b bs ihc ih =>
    rw [valuesFromLast, ih, evaluate_childGraph_of_children ihc]
    rfl

theorem evaluate_childGraph (b : StoredBlock) : childGraph.evaluate nodeToData b = .ok b.toData :=
  evaluate_childGraph_of_children (valuesFromLast_evaluate_childGraph b.children)

end Block

/-! ## All codecs -/

/-- Formulas, blocks and files are stored faithfully, whatever scalars their lines and paths are, and
so is all that comes from a disk. Objects that are shared are written and read as if they were not,
whether they are parts of what is written or of the data. -/
theorem stored_faithful {ι : Type} [DecidableEq ι] [Hashable ι] :
    Codec.formulas.Faithful ∧ (∀ path, (Codec.blocks path).Faithful) ∧ Codec.files.Faithful ∧
    (∀ (disk : Disk) name encoding f, disk.extract name encoding = .ok f →
      ∀ g : SourceFile, f.stored.toData.toSourceFile = .ok g.stored ↔ g = f) ∧
    (∀ (objects : Formula.operandGraph.Objects ι) root,
      objects.fold Formula.nodeToData root = .ok (objects.node root).toData) ∧
    (∀ (objects : Block.childGraph.Objects ι) root,
      objects.fold Block.nodeToData root = .ok (objects.node root).toData) ∧
    (∀ (objects : Data.formulaGraph.Objects ι) root,
      objects.fold Data.combineFormula root = (objects.node root).toFormula) ∧
    ∀ path (objects : Data.blockGraph.Objects ι) root,
      objects.fold (Data.combineBlock path) root = Data.toBlock path (objects.node root) := by
  refine ⟨Codec.formulas_faithful, Codec.blocks_faithful, Codec.files_faithful, ?_, ?_, ?_, ?_, ?_⟩
  · intro disk name encoding f h g
    rw [SourceFile.toSourceFile_toData (Disk.path_of_stored h), Except.ok.injEq,
      SourceFile.stored_injective.eq_iff, eq_comm]
  · intro objects root
    rw [objects.fold_eq]
    exact Formula.evaluate_operandGraph _
  · intro objects root
    rw [objects.fold_eq]
    exact Block.evaluate_childGraph _
  · intro objects root
    rw [objects.fold_eq]
    exact (Data.formulaGraph.foldUnfolded_eq_evaluate _ _).symm
  · intro path objects root
    rw [objects.fold_eq]
    exact (Data.blockGraph.foldUnfolded_eq_evaluate _ _).symm

end Conditionals
