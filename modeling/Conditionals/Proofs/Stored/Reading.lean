/-
Conditionals.Proofs.Stored.Reading — what the readers of plain data accept.

* `Data.toFormula_eq`, `Data.toBlock_eq` — the readers by plain
  recursion;
* `Formula.StoredAs`, `Block.StoredAs` — that plain data store a formula or
  a block: the fields that count are there and store its parts. Other
  fields may be there as well, and fields come in any order;
* `Data.toFormula_eq_ok_iff`, `Data.toBlock_eq_ok_iff`,
  `Data.toSourceFile_eq_ok_iff` — reading succeeds on these data alone.
-/
import Conditionals.Proofs.Block.Forest
import Conditionals.Proofs.Graph.Evaluation
import Conditionals.Stored.Decode

namespace Conditionals

/-- Reading several values succeeds just if reading each of them does. -/
theorem mapM_eq_ok_iff {ε α β : Type} {f : α → Except ε β} {as : List α} {bs : List β} :
    as.mapM f = .ok bs ↔ List.Forall₂ (fun a b => f a = .ok b) as bs := by
  induction as generalizing bs with
  | nil => cases bs <;> simp [pure, Except.pure]
  | cons a as ih =>
    have hcons : (a :: as).mapM f = (f a).bind fun b => (as.mapM f).map (b :: ·) := by
      rw [List.mapM_cons]
      cases f a with
      | error e => rfl
      | ok b => cases as.mapM f <;> rfl
    simp only [hcons, bind_eq_ok_iff, map_eq_ok_iff, ih]
    constructor
    · rintro ⟨b, hb, bs, hbs, rfl⟩
      exact .cons hb hbs
    · intro h
      cases h with
      | cons hb hbs => exact ⟨_, hb, _, hbs, rfl⟩

namespace Data

variable {d value : Data} {key : String}

/-! ## Fields -/

theorem field_eq_ok_iff :
    d.field key = .ok value ↔ ∃ fields, d = .object fields ∧ fields.lookup key = some value := by
  unfold field
  split
  case h_1 fields =>
    cases hlookup : fields.lookup key with
    | none => simp [hlookup]
    | some other => simp [hlookup]
  case h_2 hne =>
    constructor
    · nofun
    · rintro ⟨fields, rfl, -⟩
      exact absurd rfl (hne fields)

theorem textField_eq_ok_iff {s : String} :
    d.textField key = .ok s ↔ d.field key = .ok (.text s) := by
  unfold textField
  cases d.field key with
  | error e => simp [bind, Except.bind]
  | ok value => cases value <;> simp [bind, Except.bind]

theorem toScalar_eq_ok_iff {s : Scalar} : d.toScalar = .ok s ↔ d = s.data := by
  unfold toScalar
  split
  next h => rw [Except.ok.injEq, Scalar.ext_iff]
  next h =>
    constructor
    · nofun
    · rintro rfl
      exact absurd s.isScalar h

theorem itemsField_of_list {items : List Data} (h : d.field key = .ok (.list items)) :
    d.itemsField key = .ok items := by
  unfold itemsField
  rw [h]
  rfl

theorem formulaKind_eq_ok_iff {k : FormulaKind} :
    d.formulaKind = .ok k ↔ d.field "kind" = .ok (.text k.name) := by
  unfold formulaKind
  cases d.field "kind" with
  | error e => simp [bind, Except.bind]
  | ok value =>
    cases value with
    | text s =>
      simp only [bind, Except.bind]
      constructor
      · intro h
        split at h
        case h_1 k' hk =>
          cases h
          have hname : k.name = s := by simpa using List.find?_some hk
          rw [hname]
        case h_2 => cases h
      · intro h
        cases h
        rw [FormulaKind.named?_name]
    | _ => simp [bind, Except.bind]

/-! ## Formulas -/

/-- What reading a formula of a known kind comes to. The right operand is read before the left one. -/
def formulaOfKind (d : Data) : FormulaKind → Except StoredFault Condition
  | .const value => .ok (.const value)
  | .bare => (d.textField "name").map fun name => .atom (.bare name)
  | .defined => (d.textField "name").map fun name => .atom (.defined name)
  | .neg => (d.field "operand").bind fun p => p.toFormula.map .neg
  | .join op =>
    (d.field "left").bind fun p => (d.field "right").bind fun q =>
      q.toFormula.bind fun g => p.toFormula.map fun f => .join op f g

/-- Reading a formula is plain recursion. -/
theorem toFormula_eq (d : Data) : d.toFormula = d.formulaKind.bind d.formulaOfKind := by
  have hevaluate : toFormula = formulaGraph.evaluate combineFormula :=
    funext (formulaGraph.foldUnfolded_eq_evaluate combineFormula)
  have heq : d.toFormula =
      d.formulaParts.bind fun ps => (valuesFromLast toFormula ps).bind d.combineFormula := by
    rw [hevaluate]
    exact formulaGraph.evaluate_eq combineFormula d
  rw [heq]
  cases hkind : d.formulaKind with
  | error e => simp [formulaParts, hkind, bind, Except.bind]
  | ok k =>
    -- With the kind, the parts to read are known, and how they are combined.
    cases k with
    | neg =>
      have hparts : d.formulaParts = (d.field "operand").bind fun p => .ok [p] := by
        rw [formulaParts, hkind]
        rfl
      cases hp : d.field "operand" with
      | error e => simp [hparts, formulaOfKind, hp, Except.bind]
      | ok p =>
        cases hf : p.toFormula <;>
          simp [hparts, hkind, formulaOfKind, hp, hf, valuesFromLast, combineFormula, bind,
            Except.bind, pure, Except.pure, Except.map]
    | join op =>
      have hparts : d.formulaParts =
          (d.field "left").bind fun p => (d.field "right").bind fun q => .ok [p, q] := by
        rw [formulaParts, hkind]
        rfl
      cases hp : d.field "left" with
      | error e => simp [hparts, formulaOfKind, hp, Except.bind]
      | ok p =>
        cases hq : d.field "right" with
        | error e => simp [hparts, formulaOfKind, hp, hq, Except.bind]
        | ok q =>
          cases hg : q.toFormula <;> cases hf : p.toFormula <;>
            simp [hparts, hkind, formulaOfKind, hp, hq, hf, hg, valuesFromLast, combineFormula,
              bind, Except.bind, pure, Except.pure, Except.map]
    | _ =>
      have hparts : d.formulaParts = .ok [] := by
        rw [formulaParts, hkind]
        rfl
      simp [hparts, hkind, formulaOfKind, valuesFromLast, combineFormula, bind, Except.bind, pure,
        Except.pure, Except.map]

end Data

namespace Formula

/-- The kind that a formula is stored with. -/
def kind : Condition → FormulaKind
  | const value => .const value
  | atom (.bare _) => .bare
  | atom (.defined _) => .defined
  | neg _ => .neg
  | join op _ _ => .join op

/-- The data have the kind of the formula and, in the fields of that kind, its name or data that
store its operands. -/
def StoredAs : Condition → Data → Prop
  | const value, d => d.formulaKind = .ok (.const value)
  | atom (.bare name), d => d.formulaKind = .ok .bare ∧ d.textField "name" = .ok name
  | atom (.defined name), d => d.formulaKind = .ok .defined ∧ d.textField "name" = .ok name
  | neg f, d => d.formulaKind = .ok .neg ∧ ∃ p, d.field "operand" = .ok p ∧ f.StoredAs p
  | join op f g, d =>
    d.formulaKind = .ok (.join op) ∧
      ∃ p q, d.field "left" = .ok p ∧ d.field "right" = .ok q ∧ f.StoredAs p ∧ g.StoredAs q

end Formula

namespace Data

variable {d : Data}

theorem kind_of_formulaOfKind {k : FormulaKind} {f : Condition} (h : d.formulaOfKind k = .ok f) :
    k = f.kind := by
  cases k <;> simp only [formulaOfKind, bind_eq_ok_iff, map_eq_ok_iff] at h
  case const => cases h; rfl
  case bare => obtain ⟨name, -, rfl⟩ := h; rfl
  case defined => obtain ⟨name, -, rfl⟩ := h; rfl
  case neg => obtain ⟨p, -, g, -, rfl⟩ := h; rfl
  case join => obtain ⟨p, -, q, -, g, -, f, -, rfl⟩ := h; rfl

theorem toFormula_eq_ok_iff {f : Condition} : d.toFormula = .ok f ↔ f.StoredAs d := by
  have hkind : ∀ (d : Data) (f : Condition), d.toFormula = .ok f ↔
      d.formulaKind = .ok f.kind ∧ d.formulaOfKind f.kind = .ok f := by
    intro d f
    rw [toFormula_eq, bind_eq_ok_iff]
    constructor
    · rintro ⟨k, hk, hf⟩
      obtain rfl := kind_of_formulaOfKind hf
      exact ⟨hk, hf⟩
    · rintro ⟨hk, hf⟩
      exact ⟨_, hk, hf⟩
  induction f generalizing d with
  | const value => simp [hkind, Formula.kind, formulaOfKind, Formula.StoredAs]
  | atom a =>
    cases a <;> simp [hkind, Formula.kind, formulaOfKind, Formula.StoredAs, map_eq_ok_iff]
  | neg f ih =>
    rw [hkind]
    simp [Formula.kind, formulaOfKind, Formula.StoredAs, bind_eq_ok_iff, map_eq_ok_iff, ih]
  | join op f g ihf ihg =>
    simp only [hkind, Formula.kind, formulaOfKind, Formula.StoredAs, bind_eq_ok_iff, map_eq_ok_iff,
      ← ihf, ← ihg]
    constructor
    · rintro ⟨hk, p, hp, q, hq, g', hg, f', hf, heq⟩
      cases heq
      exact ⟨hk, p, q, hp, hq, hf, hg⟩
    · rintro ⟨hk, p, q, hp, hq, hf, hg⟩
      exact ⟨hk, p, hp, q, hq, g, hg, f, hf, rfl⟩

/-! ## Blocks -/

/-- Reading a block is plain recursion: its children from last to first, then the block itself. -/
theorem toBlock_eq (path d : Data) :
    toBlock path d = (d.itemsField "children").bind fun items =>
      (valuesFromLast (toBlock path) items).bind (combineBlock path d) := by
  have hevaluate : toBlock path = blockGraph.evaluate (combineBlock path) :=
    funext (blockGraph.foldUnfolded_eq_evaluate (combineBlock path))
  rw [hevaluate]
  exact blockGraph.evaluate_eq (combineBlock path) d

end Data

namespace Block

mutual

/-- The data have the lines of the block, data that store its conditions, and items that store its
children. The path is not in the data. -/
def StoredAs (path : Data) : StoredBlock → Data → Prop
  | ⟨startLine, endLine, own, condition, presence, children⟩, d =>
    own.data = path ∧ d.field "start_line" = .ok startLine.data ∧
      d.field "end_line" = .ok endLine.data ∧
      (∃ p, d.field "condition" = .ok p ∧ condition.StoredAs p) ∧
      (∃ p, d.field "presence_condition" = .ok p ∧ presence.StoredAs p) ∧
      ∃ items, d.itemsField "children" = .ok items ∧ AllStoredAs path children items

/-- The items store the blocks, in order. -/
def AllStoredAs (path : Data) : List StoredBlock → List Data → Prop
  | [], items => items = []
  | b :: bs, items => ∃ d ds, items = d :: ds ∧ StoredAs path b d ∧ AllStoredAs path bs ds

end

end Block

namespace Data

variable {d path : Data}

theorem combineBlock_eq_ok_iff {children : List StoredBlock} {b : StoredBlock} :
    combineBlock path d children = .ok b ↔
      b.children = children ∧ b.path.data = path ∧ d.field "start_line" = .ok b.startLine.data ∧
        d.field "end_line" = .ok b.endLine.data ∧
        (∃ p, d.field "condition" = .ok p ∧ b.condition.StoredAs p) ∧
        (∃ p, d.field "presence_condition" = .ok p ∧ b.presence.StoredAs p) := by
  have hbind : combineBlock path d children =
      (d.field "start_line").bind fun first => (d.field "end_line").bind fun last =>
        (d.field "condition").bind fun p => p.toFormula.bind fun condition =>
          (d.field "presence_condition").bind fun q => q.toFormula.bind fun presence =>
            first.toScalar.bind fun startLine => last.toScalar.bind fun endLine =>
              path.toScalar.bind fun own =>
                .ok ⟨startLine, endLine, own, condition, presence, children⟩ := rfl
  simp only [hbind, bind_eq_ok_iff, toFormula_eq_ok_iff, toScalar_eq_ok_iff]
  constructor
  · rintro ⟨_, hstart, _, hend, p, hp, c, hc, q, hq, k, hk, startLine, rfl, endLine, rfl, own, rfl,
      hb⟩
    cases hb
    exact ⟨rfl, rfl, hstart, hend, ⟨p, hp, hc⟩, q, hq, hk⟩
  · rintro ⟨rfl, rfl, hstart, hend, ⟨p, hp, hc⟩, q, hq, hk⟩
    refine ⟨_, hstart, _, hend, p, hp, _, hc, q, hq, _, hk, _, rfl, _, rfl, _, rfl, ?_⟩
    cases b
    rfl

theorem toBlock_eq_ok_iff_of_items {b : StoredBlock}
    (h : ∀ items, valuesFromLast (toBlock path) items = .ok b.children ↔
      Block.AllStoredAs path b.children items) :
    toBlock path d = .ok b ↔ b.StoredAs path d := by
  rw [toBlock_eq]
  obtain ⟨startLine, endLine, own, condition, presence, children⟩ := b
  simp only [bind_eq_ok_iff, combineBlock_eq_ok_iff, Block.StoredAs]
  constructor
  · rintro ⟨items, hitems, bs, hbs, rfl, hpath, hstart, hend, hc, hp⟩
    exact ⟨hpath, hstart, hend, hc, hp, items, hitems, (h items).1 hbs⟩
  · rintro ⟨hpath, hstart, hend, hc, hp, items, hitems, hbs⟩
    exact ⟨items, hitems, _, (h items).2 hbs, rfl, hpath, hstart, hend, hc, hp⟩

theorem valuesFromLast_toBlock_eq_ok_iff {items : List Data} {bs : List StoredBlock} :
    valuesFromLast (toBlock path) items = .ok bs ↔ Block.AllStoredAs path bs items := by
  induction bs using Block.forest_induction generalizing items with
  | nil =>
    rw [valuesFromLast_eq_ok_iff, List.forall₂_nil_right_iff, Block.AllStoredAs]
  | cons b bs ihc ih =>
    have hb : ∀ d, toBlock path d = .ok b ↔ b.StoredAs path d :=
      fun d => toBlock_eq_ok_iff_of_items fun _ => ihc
    rw [valuesFromLast_eq_ok_iff, List.forall₂_cons_right_iff, Block.AllStoredAs]
    simp only [hb, ← valuesFromLast_eq_ok_iff, ih]
    constructor
    · rintro ⟨d, ds, hd, hds, rfl⟩
      exact ⟨d, ds, rfl, hd, hds⟩
    · rintro ⟨d, ds, rfl, hd, hds⟩
      exact ⟨d, ds, hd, hds, rfl⟩

theorem toBlock_eq_ok_iff {b : StoredBlock} : toBlock path d = .ok b ↔ b.StoredAs path d :=
  toBlock_eq_ok_iff_of_items fun _ => valuesFromLast_toBlock_eq_ok_iff

/-! ## Files -/

theorem toSourceFile_eq_ok_iff {f : StoredFile} :
    d.toSourceFile = .ok f ↔
      d.field "path" = .ok f.path ∧
        ∃ items, d.itemsField "blocks" = .ok items ∧ Block.AllStoredAs f.path f.blocks items := by
  have hbind : d.toSourceFile =
      (d.field "path").bind fun path => (d.itemsField "blocks").bind fun items =>
        (items.mapM (toBlock path)).bind fun blocks => .ok ⟨path, blocks⟩ := rfl
  simp only [hbind, bind_eq_ok_iff, mapM_eq_ok_iff, ← valuesFromLast_eq_ok_iff,
    valuesFromLast_toBlock_eq_ok_iff]
  constructor
  · rintro ⟨path, hpath, items, hitems, blocks, hblocks, hf⟩
    cases hf
    exact ⟨hpath, items, hitems, hblocks⟩
  · rintro ⟨hpath, items, hitems, hblocks⟩
    exact ⟨_, hpath, items, hitems, _, hblocks, rfl⟩

end Data

end Conditionals
