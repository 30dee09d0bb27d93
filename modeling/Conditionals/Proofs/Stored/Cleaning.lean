/-
Conditionals.Proofs.Stored.Cleaning — stored data without the fields that
nobody asks for.

* `Role` — what a value stands for. The role of an object says which of its
  fields are known, and gives their values their roles;
* `Data.clean` — the value without unknown fields, at every level. The other
  fields stay as they are, in their order;
* `Data.BlocksListed` — blocks stand in lists everywhere. The empty text and
  the empty object would be read as no blocks, too;
* `Formula.StoredAs.same_toData`, `Block.AllStoredAs.same_allToData` — data
  that store a value are, without unknown fields, those that it is written
  as.
-/
import Conditionals.Proofs.Stored.Equality
import Conditionals.Proofs.Stored.Reading

namespace Conditionals

/-! ## Roles -/

/-- What a value stands for in stored data. -/
inductive Role where
  | plain
  | formula
  | block
  | blocks
  | file
  deriving DecidableEq, Repr

/-- The fields of formulas of a kind, with the roles of their values. -/
def FormulaKind.parts : FormulaKind → List (String × Role)
  | const _ => [("kind", .plain)]
  | bare => [("kind", .plain), ("name", .plain)]
  | defined => [("kind", .plain), ("name", .plain)]
  | neg => [("kind", .plain), ("operand", .formula)]
  | join _ => [("kind", .plain), ("left", .formula), ("right", .formula)]

namespace Data

/-- The known fields of a value, if its role gives it any. -/
def parts? (d : Data) : Role → Option (List (String × Role))
  | .plain => none
  | .formula => d.formulaKind.toOption.map FormulaKind.parts
  | .block =>
    some [("start_line", .plain), ("end_line", .plain), ("condition", .formula),
      ("presence_condition", .formula), ("children", .blocks)]
  | .blocks => none
  | .file => some [("path", .plain), ("blocks", .blocks)]

/-! ## Cleaning -/

mutual

/-- The value without unknown fields. -/
def clean : Role → Data → Data
  | role, object fields =>
    match (object fields).parts? role with
    | none => object fields
    | some parts => object (cleanFields parts fields)
  | .blocks, list items => list (cleanItems items)
  | _, d => d

/-- The blocks without unknown fields. -/
def cleanItems : List Data → List Data
  | [] => []
  | d :: ds => d.clean .block :: cleanItems ds

/-- The known fields. -/
def cleanFields (parts : List (String × Role)) : List (String × Data) → List (String × Data)
  | [] => []
  | (key, d) :: rest =>
    match parts.lookup key with
    | none => cleanFields parts rest
    | some role => (key, d.clean role) :: cleanFields parts rest

end

example : (object [("note", .int 1), ("kind", .text "not"),
      ("operand", .object [("name", .text "A"), ("kind", .text "true")])]).clean .formula =
    object [("kind", .text "not"), ("operand", .object [("kind", .text "true")])] := by
  rfl

variable {d : Data} {role : Role} {parts : List (String × Role)}
  {fields entries : List (String × Data)}

theorem lookup_cleanFields (key : String) :
    (cleanFields parts fields).lookup key =
      (parts.lookup key).bind fun role => (fields.lookup key).map (clean role) := by
  induction fields with
  | nil => cases parts.lookup key <;> rfl
  | cons field rest ih =>
    obtain ⟨k, d⟩ := field
    rw [cleanFields, List.lookup_cons]
    by_cases hk : key = k
    · subst hk
      cases hrole : parts.lookup key <;> simp [ih, hrole]
    · have hne : (key == k) = false := by simpa using hk
      rw [hne]
      cases parts.lookup k with
      | none => exact ih
      | some role => simpa [List.lookup_cons, hne] using ih

/-- The field of a part has the value of an entry, apart from unknown fields. -/
def Stores (d : Data) (part : String × Role) (entry : String × Data) : Prop :=
  part.1 = entry.1 ∧ ∃ value, d.field part.1 = .ok value ∧ (value.clean part.2).Same entry.2

/-- Without unknown fields, an object is the same as one that has an entry for each known field. -/
theorem same_clean_of_stores (hparts : (object fields).parts? role = some parts)
    (h : List.Forall₂ (object fields).Stores parts entries) :
    ((object fields).clean role).Same (object entries) := by
  have hclean : (object fields).clean role = object (cleanFields parts fields) := by
    rw [clean, hparts]
  rw [hclean]
  refine sameBy_object fun key => ?_
  rw [lookup_cleanFields]
  clear hclean hparts
  -- Known fields and entries have one order, so that both are found, or not, in the same step.
  induction h with
  | nil => exact .none
  | @cons part entry parts entries hentry _ ih =>
    obtain ⟨k, role⟩ := part
    obtain ⟨k', e⟩ := entry
    obtain ⟨rfl, value, hvalue, hsame⟩ := hentry
    obtain ⟨fields', hfields, hlookup⟩ := field_eq_ok_iff.1 hvalue
    cases hfields
    rw [List.lookup_cons, List.lookup_cons]
    by_cases hk : key = k
    · subst hk
      simp only [beq_self_eq_true, Option.bind_some, hlookup, Option.map_some]
      exact .some hsame
    · have hne : (key == k) = false := by simpa using hk
      rw [hne]
      exact ih

/-- A plain value has no unknown fields. -/
theorem clean_plain (d : Data) : d.clean .plain = d := by
  cases d <;> rfl

theorem stores_plain {key : String} {value : Data} (h : d.field key = .ok value) :
    d.Stores (key, .plain) (key, value) := by
  refine ⟨rfl, value, h, ?_⟩
  rw [clean_plain]
  exact .refl value

end Data

/-! ## Formulas -/

theorem Data.same_clean_of_kind {d : Data} {k : FormulaKind} {entries : List (String × Data)}
    (hkind : d.formulaKind = .ok k)
    (h : d.field "kind" = .ok (.text k.name) →
      List.Forall₂ d.Stores k.parts (("kind", .text k.name) :: entries)) :
    (d.clean .formula).Same (k.object entries) := by
  have hfield := formulaKind_eq_ok_iff.1 hkind
  obtain ⟨fields, rfl, -⟩ := field_eq_ok_iff.1 hfield
  refine same_clean_of_stores ?_ (h hfield)
  rw [parts?, hkind]
  rfl

namespace Formula

theorem StoredAs.same_toData {d : Data} {f : Condition} (h : f.StoredAs d) :
    (d.clean .formula).Same f.toData := by
  induction f generalizing d with
  | const value =>
    exact Data.same_clean_of_kind h fun hk => .cons (Data.stores_plain hk) .nil
  | atom a =>
    cases a with
    | bare name =>
      have hname := Data.textField_eq_ok_iff.1 h.2
      exact Data.same_clean_of_kind h.1 fun hk =>
        .cons (Data.stores_plain hk) (.cons (Data.stores_plain hname) .nil)
    | defined name =>
      have hname := Data.textField_eq_ok_iff.1 h.2
      exact Data.same_clean_of_kind h.1 fun hk =>
        .cons (Data.stores_plain hk) (.cons (Data.stores_plain hname) .nil)
  | neg f ih =>
    obtain ⟨hkind, p, hp, hf⟩ := h
    exact Data.same_clean_of_kind hkind fun hk =>
      .cons (Data.stores_plain hk) (.cons ⟨rfl, p, hp, ih hf⟩ .nil)
  | join op f g ihf ihg =>
    obtain ⟨hkind, p, q, hp, hq, hf, hg⟩ := h
    exact Data.same_clean_of_kind hkind fun hk =>
      .cons (Data.stores_plain hk) (.cons ⟨rfl, p, hp, ihf hf⟩ (.cons ⟨rfl, q, hq, ihg hg⟩ .nil))

end Formula

/-! ## Blocks -/

/-- The field of the data, if there is one, is a list, and so are the fields of its items in which
they have their children, and so on down. -/
inductive Data.BlocksListed : String → Data → Prop
  | intro {key : String} {d : Data}
      (list : ∀ value, d.field key = .ok value → ∃ items, value = .list items)
      (items : ∀ items, d.field key = .ok (.list items) →
        ∀ item ∈ items, BlocksListed "children" item) : BlocksListed key d

theorem Data.BlocksListed.field_eq {key : String} {d : Data} {items : List Data}
    (h : d.BlocksListed key) (hitems : d.itemsField key = .ok items) :
    d.field key = .ok (.list items) ∧ ∀ item ∈ items, item.BlocksListed "children" := by
  obtain ⟨hlist, hinside⟩ := h
  cases hfield : d.field key with
  | error e =>
    rw [itemsField, hfield] at hitems
    cases hitems
  | ok value =>
    obtain ⟨others, rfl⟩ := hlist value hfield
    rw [itemsField_of_list hfield] at hitems
    cases hitems
    exact ⟨rfl, hinside _ hfield⟩

namespace Block

variable {path d : Data} {b : StoredBlock} {bs : List StoredBlock} {items : List Data}

theorem StoredAs.same_toData_of_children
    (hchildren : ∀ items, AllStoredAs path b.children items →
      (∀ item ∈ items, item.BlocksListed "children") →
      List.Forall₂ Data.Same (Data.cleanItems items) (allToData b.children))
    (h : b.StoredAs path d) (hlisted : d.BlocksListed "children") :
    (d.clean .block).Same b.toData := by
  obtain ⟨startLine, endLine, own, condition, presence, children⟩ := b
  obtain ⟨-, hstart, hend, ⟨p, hp, hcondition⟩, ⟨q, hq, hpresence⟩, items, hitems, hstored⟩ := h
  obtain ⟨hlist, hinside⟩ := hlisted.field_eq hitems
  have hsame : ((Data.list items).clean .blocks).Same (.list (allToData children)) :=
    Data.sameBy_list (hchildren items hstored hinside)
  obtain ⟨fields, rfl, -⟩ := Data.field_eq_ok_iff.1 hp
  exact Data.same_clean_of_stores rfl
    (.cons (Data.stores_plain hstart)
      (.cons (Data.stores_plain hend)
        (.cons ⟨rfl, p, hp, hcondition.same_toData⟩
          (.cons ⟨rfl, q, hq, hpresence.same_toData⟩ (.cons ⟨rfl, _, hlist, hsame⟩ .nil)))))

theorem AllStoredAs.same_allToData (h : AllStoredAs path bs items)
    (hlisted : ∀ item ∈ items, item.BlocksListed "children") :
    List.Forall₂ Data.Same (Data.cleanItems items) (allToData bs) := by
  induction bs using forest_induction generalizing items with
  | nil =>
    obtain rfl : items = [] := h
    exact .nil
  | cons b bs ihc ih =>
    obtain ⟨d, ds, rfl, hd, hds⟩ := h
    exact .cons
      (hd.same_toData_of_children (fun _ => ihc) (hlisted d List.mem_cons_self))
      (ih hds fun item hitem => hlisted item (List.mem_cons_of_mem _ hitem))

theorem StoredAs.same_toData (h : b.StoredAs path d) (hlisted : d.BlocksListed "children") :
    (d.clean .block).Same b.toData :=
  h.same_toData_of_children (fun _ => AllStoredAs.same_allToData) hlisted

end Block

/-! ## Files -/

/-- A file's data, without unknown fields, are those that it is written as. -/
theorem SourceFile.same_toData {d : Data} {f : StoredFile} {items : List Data}
    (hpath : d.field "path" = .ok f.path) (hitems : d.itemsField "blocks" = .ok items)
    (h : Block.AllStoredAs f.path f.blocks items) (hlisted : d.BlocksListed "blocks") :
    (d.clean .file).Same f.toData := by
  obtain ⟨hlist, hinside⟩ := hlisted.field_eq hitems
  have hsame : ((Data.list items).clean .blocks).Same (.list (Block.allToData f.blocks)) :=
    Data.sameBy_list (h.same_allToData hinside)
  obtain ⟨fields, rfl, -⟩ := Data.field_eq_ok_iff.1 hlist
  exact Data.same_clean_of_stores rfl
    (.cons (Data.stores_plain hpath) (.cons ⟨rfl, _, hlist, hsame⟩ .nil))

end Conditionals
