/-
Conditionals.Proofs.Stored.Recursion — the readers of stored data as plain
recursive readers.

* `Data.readFormula`, `Data.readBlock`, `Data.readSourceFile` — readers that
  call themselves for the parts of a value. Line by line they say which field
  is asked for and which part is read next, and so which of several faults is
  met first;
* `Data.IsFormula`, `Data.IsBlock`, `Data.IsSourceFile` — what stored data
  look like: the fields that count are there, and each holds what it should;
* `Data.readers_recursive` — the readers that fold the places of the data
  give the same values and the same faults as the recursive ones, and they
  succeed on such data and on no others.
-/
import Conditionals.Proofs.Stored.Reading

namespace Conditionals

/-! ## Outcomes in order -/

section outcomes

variable {ε α β γ : Type} (x : Except ε α)

theorem map_bind (f : α → β) (g : β → Except ε γ) :
    (x.map f).bind g = x.bind fun a => g (f a) := by
  cases x <;> rfl

theorem bind_bind (f : α → Except ε β) (g : β → Except ε γ) :
    (x.bind f).bind g = x.bind fun a => (f a).bind g := by
  cases x <;> rfl

theorem map_eq_bind (f : α → β) : x.map f = x.bind fun a => .ok (f a) := by
  cases x <;> rfl

end outcomes

namespace Data

/-! ## Parts of an object -/

/-- The value in a field of an object. -/
structure Part (fields : List (String × Data)) (key : String) where
  value : Data
  lookup_eq : fields.lookup key = some value

/-- A field that must be there. -/
def require (fields : List (String × Data)) (key : String) : Except StoredFault (Part fields key) :=
  match h : fields.lookup key with
  | some value => .ok ⟨value, h⟩
  | none => .error (.missingKey key)

/-- The items of a value. -/
structure Items (value : Data) where
  toList : List Data
  smaller : ∀ item ∈ toList, sizeOf item < sizeOf value

/-- The items of a value that must have items. -/
def readItems : (value : Data) → Except StoredFault (Items value)
  | list items => .ok ⟨items, fun _ => sizeOf_lt_of_mem⟩
  | text "" => .ok ⟨[], nofun⟩
  | object [] => .ok ⟨[], nofun⟩
  | text _ => .error .wrongShape
  | object _ => .error .wrongShape
  | value => .error (.notItems value)

/-- A value that must be a text. -/
def readText : Data → Except StoredFault String
  | text s => .ok s
  | _ => .error .wrongShape

/-- A value that must be neither a list nor an object. -/
def readScalar : Data → Except StoredFault Scalar
  | list items => .error (.notAScalar (list items))
  | object fields => .error (.notAScalar (object fields))
  | null => .ok (Scalar.ofText? none)
  | bool value => .ok ⟨bool value, rfl⟩
  | int value => .ok (Scalar.int value)
  | real shown => .ok ⟨real shown, rfl⟩
  | text value => .ok (Scalar.ofText? (some value))

/-- A value that must name a kind of formulas. -/
def readKind : Data → Except StoredFault FormulaKind
  | text "true" => .ok (.const true)
  | text "false" => .ok (.const false)
  | text "variable" => .ok .bare
  | text "defined" => .ok .defined
  | text "not" => .ok .neg
  | text "and" => .ok (.join .conj)
  | text "or" => .ok (.join .disj)
  | list items => .error (.notAKind (list items))
  | object fields => .error (.notAKind (object fields))
  | kind => .error (.unknownKind kind)

/-! ## Recursive readers -/

/-- Reads a formula. The left operand is asked for first, but the right one is read first. -/
def readFormula : Data → Except StoredFault Condition
  | object fields => do
    let kind ← readKind (← require fields "kind").value
    match kind with
    | .const value => return .const value
    | .bare =>
      let name ← readText (← require fields "name").value
      return .atom (.bare name)
    | .defined =>
      let name ← readText (← require fields "name").value
      return .atom (.defined name)
    | .neg =>
      let operand ← require fields "operand"
      return .neg (← operand.value.readFormula)
    | .join op =>
      let left ← require fields "left"
      let right ← require fields "right"
      let g ← right.value.readFormula
      let f ← left.value.readFormula
      return .join op f g
  | d => .error (.notAnObject d)
  termination_by d => sizeOf d
  decreasing_by
    · exact sizeOf_lt_of_lookup operand.lookup_eq
    · exact sizeOf_lt_of_lookup right.lookup_eq
    · exact sizeOf_lt_of_lookup left.lookup_eq

/-- Reads a block of a file. Nothing else is asked for before all children have been read, and the
lines and the path are looked at last. -/
def readBlock (path : Data) : Data → Except StoredFault StoredBlock
  | object fields => do
    let below ← require fields "children"
    let items ← below.value.readItems
    let children ← valuesFromLast (fun item => readBlock path item.1) items.toList.attach
    let first ← require fields "start_line"
    let last ← require fields "end_line"
    let condition ← (← require fields "condition").value.readFormula
    let presence ← (← require fields "presence_condition").value.readFormula
    let startLine ← first.value.readScalar
    let endLine ← last.value.readScalar
    let own ← path.readScalar
    return ⟨startLine, endLine, own, condition, presence, children⟩
  | d => .error (.notAnObject d)
  termination_by d => sizeOf d
  decreasing_by
    exact Nat.lt_trans (items.smaller _ item.2) (sizeOf_lt_of_lookup below.lookup_eq)

/-- Reads a file, its blocks from first to last. -/
def readSourceFile : Data → Except StoredFault StoredFile
  | object fields => do
    let path ← require fields "path"
    let items ← (← require fields "blocks").value.readItems
    let blocks ← items.toList.mapM (readBlock path.value)
    return ⟨path.value, blocks⟩
  | d => .error (.notAnObject d)

/-! ## The same fields in the same order -/

section object

variable {fields : List (String × Data)} {key : String}

theorem field_object : (object fields).field key = (require fields key).map (·.value) := by
  unfold require
  split
  next value h => simp only [field, h, Except.map]
  next h => simp only [field, h, Except.map]

theorem textField_object :
    (object fields).textField key = (require fields key).bind fun p => readText p.value := by
  rw [← map_bind, ← field_object]
  rfl

theorem itemsField_object : (object fields).itemsField key =
    (require fields key).bind fun p => p.value.readItems.map (·.toList) := by
  rw [← map_bind (require fields key) (·.value) fun value => value.readItems.map (·.toList),
    ← field_object, itemsField]
  refine congrArg (Except.bind _) (funext fun value => ?_)
  cases value with
  | text s =>
    by_cases hs : s = ""
    · rw [hs]
      rfl
    · simp [readItems, Except.map]
  | object fields => cases fields <;> rfl
  | _ => rfl

theorem readKind_text (s : String) : readKind (text s) =
    match FormulaKind.named? s with
    | some k => .ok k
    | none => .error (.unknownKind (text s)) := by
  cases hs : FormulaKind.named? s with
  | some k =>
    have hname : k.name = s := by simpa using List.find?_some hs
    subst hname
    rcases k with (_ | _) | _ | _ | _ | (_ | _) <;> rfl
  | none =>
    have hne : ∀ k : FormulaKind, s ≠ k.name := by
      rintro k rfl
      rw [FormulaKind.named?_name] at hs
      cases hs
    have htrue := hne (.const true)
    have hfalse := hne (.const false)
    have hbare := hne .bare
    have hdefined := hne .defined
    have hneg := hne .neg
    have hconj := hne (.join .conj)
    have hdisj := hne (.join .disj)
    simp only [FormulaKind.name] at htrue hfalse hbare hdefined hneg hconj hdisj
    simp [readKind, *]

theorem formulaKind_object :
    (object fields).formulaKind = (require fields "kind").bind fun p => readKind p.value := by
  rw [← map_bind, ← field_object, formulaKind]
  refine congrArg (Except.bind _) (funext fun value => ?_)
  cases value with
  | text s => exact (readKind_text s).symm
  | _ => rfl

end object

/-! ## The same outcomes -/

theorem toFormula_eq_readFormula (d : Data) : d.toFormula = d.readFormula := by
  induction d using (measure fun d : Data => sizeOf d).wf.induction with
  | _ d ih =>
  rw [toFormula_eq]
  cases d with
  | object fields =>
    have hpart : ∀ key (p : Part fields key), p.value.toFormula = p.value.readFormula :=
      fun key p => ih p.value (sizeOf_lt_of_lookup p.lookup_eq)
    rw [readFormula, formulaKind_object, bind_bind]
    refine congrArg (Except.bind _) (funext fun p => ?_)
    refine congrArg (Except.bind _) (funext fun kind => ?_)
    cases kind with
    | const value => rfl
    | bare =>
      rw [formulaOfKind, textField_object, map_eq_bind, bind_bind]
      rfl
    | defined =>
      rw [formulaOfKind, textField_object, map_eq_bind, bind_bind]
      rfl
    | neg =>
      simp only [formulaOfKind, field_object, map_bind, hpart]
      simp only [map_eq_bind]
      rfl
    | join op =>
      simp only [formulaOfKind, field_object, map_bind, hpart]
      simp only [map_eq_bind]
      rfl
  | _ =>
    rw [readFormula]
    · rfl
    · intro fields h
      cases h

theorem toScalar_eq_readScalar (d : Data) : d.toScalar = d.readScalar := by
  cases d <;> rfl

theorem toBlock_eq_readBlock (path d : Data) : toBlock path d = readBlock path d := by
  induction d using (measure fun d : Data => sizeOf d).wf.induction with
  | _ d ih =>
  rw [toBlock_eq]
  cases d with
  | object fields =>
    rw [readBlock, itemsField_object, bind_bind]
    refine congrArg (Except.bind _) (funext fun below => ?_)
    rw [map_bind]
    refine congrArg (Except.bind _) (funext fun items => ?_)
    have hitems : valuesFromLast (toBlock path) items.toList =
        valuesFromLast (fun item => readBlock path item.1) items.toList.attach := by
      rw [← valuesFromLast_map Subtype.val, List.attach_map_subtype_val]
      refine valuesFromLast_congr fun item hitem => ih item ?_
      exact Nat.lt_trans (items.smaller item hitem) (sizeOf_lt_of_lookup below.lookup_eq)
    rw [hitems]
    refine congrArg (Except.bind _) (funext fun children => ?_)
    simp only [combineBlock, field_object, toFormula_eq_readFormula, toScalar_eq_readScalar, bind,
      map_bind]
  | _ =>
    rw [readBlock]
    · rfl
    · intro fields h
      cases h

theorem toSourceFile_eq_readSourceFile (d : Data) : d.toSourceFile = d.readSourceFile := by
  have hblock : toBlock = readBlock := funext fun path => funext fun d => toBlock_eq_readBlock path d
  rw [toSourceFile, hblock]
  cases d with
  | object fields =>
    rw [field_object, itemsField_object]
    simp only [readSourceFile, bind, map_bind, bind_bind]
  | _ => rfl

/-! ## What is accepted -/

/-- An object has a value in a field. -/
def Holds (d : Data) (key : String) (value : Data) : Prop :=
  ∃ fields, d = object fields ∧ fields.lookup key = some value

/-- An object has items in a field. -/
def HoldsItems (d : Data) (key : String) (items : List Data) : Prop :=
  d.Holds key (list items) ∨ items = [] ∧ (d.Holds key (text "") ∨ d.Holds key (object []))

/-- Stored formulas. -/
inductive IsFormula : Data → Prop
  | verum {d : Data} : d.Holds "kind" (text "true") → IsFormula d
  | falsum {d : Data} : d.Holds "kind" (text "false") → IsFormula d
  | bare {d : Data} {name : String} : d.Holds "kind" (text "variable") →
      d.Holds "name" (text name) → IsFormula d
  | defined {d : Data} {name : String} : d.Holds "kind" (text "defined") →
      d.Holds "name" (text name) → IsFormula d
  | neg {d p : Data} : d.Holds "kind" (text "not") → d.Holds "operand" p → IsFormula p → IsFormula d
  | conj {d p q : Data} : d.Holds "kind" (text "and") → d.Holds "left" p → d.Holds "right" q →
      IsFormula p → IsFormula q → IsFormula d
  | disj {d p q : Data} : d.Holds "kind" (text "or") → d.Holds "left" p → d.Holds "right" q →
      IsFormula p → IsFormula q → IsFormula d

/-- Stored blocks. -/
inductive IsBlock : Data → Prop
  | intro {d p q : Data} {items : List Data} {startLine endLine : Scalar} :
      d.HoldsItems "children" items → (∀ item ∈ items, IsBlock item) →
      d.Holds "start_line" startLine.data → d.Holds "end_line" endLine.data →
      d.Holds "condition" p → IsFormula p →
      d.Holds "presence_condition" q → IsFormula q → IsBlock d

/-- Stored files. Their path is the path of the blocks in them, if there are any. -/
inductive IsSourceFile : Data → Prop
  | intro {d path : Data} {items : List Data} : d.Holds "path" path → d.HoldsItems "blocks" items →
      (∀ item ∈ items, path.isScalar = true ∧ item.IsBlock) → IsSourceFile d

section accepted

variable {d path value : Data} {key : String}

theorem holds_iff : d.Holds key value ↔ d.field key = .ok value := field_eq_ok_iff.symm

theorem holds_text_iff {s : String} : d.Holds key (text s) ↔ d.textField key = .ok s :=
  holds_iff.trans textField_eq_ok_iff.symm

theorem holds_kind_iff (k : FormulaKind) : d.Holds "kind" (text k.name) ↔ d.formulaKind = .ok k :=
  holds_iff.trans formulaKind_eq_ok_iff.symm

theorem holdsItems_iff {items : List Data} :
    d.HoldsItems key items ↔ d.itemsField key = .ok items := by
  have hfield : d.itemsField key = .ok items ↔ ∃ value, d.field key = .ok value ∧
      (value = list items ∨ items = [] ∧ (value = text "" ∨ value = object [])) := by
    rw [itemsField]
    refine bind_eq_ok_iff.trans (exists_congr fun value => and_congr_right fun _ => ?_)
    cases value with
    | text s =>
      by_cases hs : s = ""
      · subst hs
        simp [eq_comm]
      · simp [hs]
    | object fields => cases fields <;> simp [eq_comm]
    | _ => simp
  rw [hfield, HoldsItems, holds_iff, holds_iff, holds_iff]
  constructor
  · rintro (h | ⟨rfl, h | h⟩)
    · exact ⟨_, h, .inl rfl⟩
    · exact ⟨_, h, .inr ⟨rfl, .inl rfl⟩⟩
    · exact ⟨_, h, .inr ⟨rfl, .inr rfl⟩⟩
  · rintro ⟨value, h, rfl | ⟨rfl, rfl | rfl⟩⟩
    · exact .inl h
    · exact .inr ⟨rfl, .inl h⟩
    · exact .inr ⟨rfl, .inr h⟩

theorem isFormula_of_storedAs {f : Condition} (h : f.StoredAs d) : d.IsFormula := by
  induction f generalizing d with
  | const value =>
    cases value with
    | true => exact .verum ((holds_kind_iff _).2 h)
    | false => exact .falsum ((holds_kind_iff _).2 h)
  | atom a =>
    cases a with
    | bare name => exact .bare ((holds_kind_iff _).2 h.1) (holds_text_iff.2 h.2)
    | defined name => exact .defined ((holds_kind_iff _).2 h.1) (holds_text_iff.2 h.2)
  | neg f ih =>
    obtain ⟨hk, p, hp, hf⟩ := h
    exact .neg ((holds_kind_iff _).2 hk) (holds_iff.2 hp) (ih hf)
  | join op f g ihf ihg =>
    obtain ⟨hk, p, q, hp, hq, hf, hg⟩ := h
    have hkind := (holds_kind_iff _).2 hk
    cases op with
    | conj => exact .conj hkind (holds_iff.2 hp) (holds_iff.2 hq) (ihf hf) (ihg hg)
    | disj => exact .disj hkind (holds_iff.2 hp) (holds_iff.2 hq) (ihf hf) (ihg hg)

theorem IsFormula.exists_storedAs (h : d.IsFormula) : ∃ f : Condition, f.StoredAs d := by
  induction h with
  | verum hk => exact ⟨.const true, (holds_kind_iff (.const true)).1 hk⟩
  | falsum hk => exact ⟨.const false, (holds_kind_iff (.const false)).1 hk⟩
  | bare hk hn => exact ⟨.atom (.bare _), (holds_kind_iff .bare).1 hk, holds_text_iff.1 hn⟩
  | defined hk hn =>
    exact ⟨.atom (.defined _), (holds_kind_iff .defined).1 hk, holds_text_iff.1 hn⟩
  | neg hk hp _ ih =>
    obtain ⟨f, hf⟩ := ih
    exact ⟨.neg f, (holds_kind_iff .neg).1 hk, _, holds_iff.1 hp, hf⟩
  | conj hk hp hq _ _ ihp ihq =>
    obtain ⟨f, hf⟩ := ihp
    obtain ⟨g, hg⟩ := ihq
    have hkind := (holds_kind_iff (.join .conj)).1 hk
    exact ⟨.join .conj f g, hkind, _, _, holds_iff.1 hp, holds_iff.1 hq, hf, hg⟩
  | disj hk hp hq _ _ ihp ihq =>
    obtain ⟨f, hf⟩ := ihp
    obtain ⟨g, hg⟩ := ihq
    have hkind := (holds_kind_iff (.join .disj)).1 hk
    exact ⟨.join .disj f g, hkind, _, _, holds_iff.1 hp, holds_iff.1 hq, hf, hg⟩

theorem isBlock_of_allStoredAs {bs : List StoredBlock} {items : List Data}
    (h : Block.AllStoredAs path bs items) :
    ∀ item ∈ items, path.isScalar = true ∧ item.IsBlock := by
  induction bs using Block.forest_induction generalizing items with
  | nil =>
    obtain rfl : items = [] := h
    intro item hitem
    cases hitem
  | cons b bs ihc ih =>
    obtain ⟨d, ds, rfl, hd, hds⟩ := h
    obtain ⟨startLine, endLine, own, condition, presence, children⟩ := b
    obtain ⟨rfl, hstart, hend, ⟨p, hp, hc⟩, ⟨q, hq, hk⟩, below, hbelow, hchildren⟩ := hd
    have hbelowBlocks : ∀ item ∈ below, item.IsBlock := fun item hitem =>
      (ihc hchildren item hitem).2
    rintro item (_ | ⟨_, hitem⟩)
    · exact ⟨own.isScalar, .intro (holdsItems_iff.2 hbelow) hbelowBlocks (holds_iff.2 hstart)
        (holds_iff.2 hend) (holds_iff.2 hp) (isFormula_of_storedAs hc) (holds_iff.2 hq)
        (isFormula_of_storedAs hk)⟩
    · exact ih hds item hitem

theorem exists_allStoredAs {items : List Data}
    (h : ∀ item ∈ items, ∃ b : StoredBlock, b.StoredAs path item) :
    ∃ bs, Block.AllStoredAs path bs items := by
  induction items with
  | nil => exact ⟨[], rfl⟩
  | cons d ds ih =>
    obtain ⟨b, hb⟩ := h d List.mem_cons_self
    obtain ⟨bs, hbs⟩ := ih fun item hitem => h item (List.mem_cons_of_mem d hitem)
    exact ⟨b :: bs, d, ds, rfl, hb, hbs⟩

theorem IsBlock.exists_storedAs (hpath : path.isScalar = true) (h : d.IsBlock) :
    ∃ b : StoredBlock, b.StoredAs path d := by
  induction h with
  | intro hitems _ hstart hend hp hc hq hk ih =>
    obtain ⟨children, hchildren⟩ := exists_allStoredAs ih
    obtain ⟨condition, hcondition⟩ := hc.exists_storedAs
    obtain ⟨presence, hpresence⟩ := hk.exists_storedAs
    exact ⟨⟨_, _, ⟨path, hpath⟩, condition, presence, children⟩, rfl,
      holds_iff.1 hstart, holds_iff.1 hend,
      ⟨_, holds_iff.1 hp, hcondition⟩, ⟨_, holds_iff.1 hq, hpresence⟩,
      _, holdsItems_iff.1 hitems, hchildren⟩

theorem exists_toFormula_iff : (∃ f, d.toFormula = .ok f) ↔ d.IsFormula := by
  simp only [toFormula_eq_ok_iff]
  exact ⟨fun ⟨_, h⟩ => isFormula_of_storedAs h, IsFormula.exists_storedAs⟩

theorem exists_toBlock_iff :
    (∃ b, toBlock path d = .ok b) ↔ path.isScalar = true ∧ d.IsBlock := by
  simp only [toBlock_eq_ok_iff]
  refine ⟨fun ⟨b, h⟩ => ?_, fun ⟨hpath, h⟩ => h.exists_storedAs hpath⟩
  have hall : Block.AllStoredAs path [b] [d] := ⟨d, [], rfl, h, rfl⟩
  exact isBlock_of_allStoredAs hall d List.mem_cons_self

theorem exists_toSourceFile_iff : (∃ f, d.toSourceFile = .ok f) ↔ d.IsSourceFile := by
  simp only [toSourceFile_eq_ok_iff]
  constructor
  · rintro ⟨f, hpath, items, hitems, hblocks⟩
    exact .intro (holds_iff.2 hpath) (holdsItems_iff.2 hitems) (isBlock_of_allStoredAs hblocks)
  · rintro ⟨hpath, hitems, hall⟩
    obtain ⟨blocks, hblocks⟩ := exists_allStoredAs fun item hitem =>
      (hall item hitem).2.exists_storedAs (hall item hitem).1
    exact ⟨⟨_, blocks⟩, holds_iff.1 hpath, _, holdsItems_iff.1 hitems, hblocks⟩

end accepted

/-! ## All readers -/

/-- Reading stored data gives what plain recursion gives, the same value or the same fault, and it
succeeds just if the data are a stored formula, block or file. A block has a path besides, and that
must be a scalar as its lines must. -/
theorem readers_recursive (d path : Data) :
    (d.toFormula = d.readFormula ∧ toBlock path d = readBlock path d ∧
      d.toSourceFile = d.readSourceFile) ∧
    ((∃ f, d.toFormula = .ok f) ↔ d.IsFormula) ∧
    ((∃ b, toBlock path d = .ok b) ↔ path.isScalar = true ∧ d.IsBlock) ∧
    ((∃ f, d.toSourceFile = .ok f) ↔ d.IsSourceFile) :=
  ⟨⟨toFormula_eq_readFormula d, toBlock_eq_readBlock path d, toSourceFile_eq_readSourceFile d⟩,
    exists_toFormula_iff, exists_toBlock_iff, exists_toSourceFile_iff⟩

end Data

end Conditionals
