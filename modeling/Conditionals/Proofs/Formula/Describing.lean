/-
Conditionals.Proofs.Formula.Describing — a formula is determined by its
description as nested constructors.

Each constructor begins its text with a letter of its own
(`Formula.hasShapeOf_of_initial`), and the text of a formula ends by itself:
what follows it is determined as well (`Formula.describeWith_append_inj`).
So a name may hold anything, also what looks like a constructor.

`Formula.describeWith_eq_iff` is the main statement.
-/
import Conditionals.Proofs.Formula.Equality
import Conditionals.Proofs.Text.Quoted

namespace Conditionals.Formula

/-! ## The letter at the front -/

/-- The first letter of a formula as nested constructors. -/
def initial : Condition → Char
  | const true => 'T'
  | const false => 'F'
  | atom (.bare _) => 'V'
  | atom (.defined _) => 'D'
  | neg _ => 'N'
  | join .conj _ _ => 'A'
  | join .disj _ _ => 'O'

/-- The second formula has the outermost constructor of the first one. -/
def HasShapeOf : Condition → Condition → Prop
  | const value, g => g = const value
  | atom (.bare _), g => ∃ name, g = atom (.bare name)
  | atom (.defined _), g => ∃ name, g = atom (.defined name)
  | neg _, g => ∃ operand, g = neg operand
  | join op _ _, g => ∃ left right, g = join op left right

variable {printable : Char → Bool} {f g : Condition} {xs ys : List Char}

theorem head_describeWith (printable : Char → Bool) (f : Condition) (xs : List Char) :
    ((describeWith printable f).toList ++ xs).head? = some f.initial := by
  cases f with
  | const value => cases value <;> simp [describeWith, initial]
  | atom a => cases a <;> simp [describeWith, constructorName, initial]
  | neg f => simp [describeWith, initial]
  | join op f g => cases op <;> simp [describeWith, constructorName, initial]

/-- The first letter says what the outermost constructor is. -/
theorem hasShapeOf_of_initial (h : f.initial = g.initial) : HasShapeOf f g := by
  rcases f with (_ | _) | (_ | _) | _ | ⟨_ | _, _, _⟩ <;>
    rcases g with (_ | _) | (_ | _) | _ | ⟨_ | _, _, _⟩ <;>
    simp [initial, HasShapeOf] at h ⊢

theorem hasShapeOf_of_append
    (h : (describeWith printable f).toList ++ xs = (describeWith printable g).toList ++ ys) :
    HasShapeOf f g := by
  have hhead := congrArg List.head? h
  rw [head_describeWith, head_describeWith, Option.some.injEq] at hhead
  exact hasShapeOf_of_initial hhead

/-! ## Texts that end by themselves -/

theorem describeWith_atom_append (a : Atom) (xs : List Char) :
    (describeWith printable (atom a)).toList ++ xs =
      (constructorName (atom a)).toList ++
        '(' :: ((Text.quoteWith printable a.name).toList ++ ')' :: xs) := by
  simp [describeWith]

theorem describeWith_neg_append (f : Condition) (xs : List Char) :
    (describeWith printable (neg f)).toList ++ xs =
      "Not(".toList ++ ((describeWith printable f).toList ++ ')' :: xs) := by
  simp [describeWith]

theorem describeWith_join_append (op : Connective) (f g : Condition) (xs : List Char) :
    (describeWith printable (join op f g)).toList ++ xs =
      (constructorName (join op f g)).toList ++
        '(' :: ((describeWith printable f).toList ++
          ',' :: ' ' :: ((describeWith printable g).toList ++ ')' :: xs)) := by
  simp [describeWith]

theorem constructorName_join (op : Connective) (f g f' g' : Condition) :
    constructorName (join op f g) = constructorName (join op f' g') := by
  cases op <;> rfl

/-- The texts of two atoms of one kind determine the names. -/
theorem name_eq_of_append {a b : Atom}
    (hkind : constructorName (atom a) = constructorName (atom b))
    (h : (describeWith printable (atom a)).toList ++ xs =
      (describeWith printable (atom b)).toList ++ ys) : a.name = b.name ∧ xs = ys := by
  rw [describeWith_atom_append, describeWith_atom_append, hkind] at h
  have hquoted := (List.cons.inj (List.append_cancel_left h)).2
  obtain ⟨hname, hrest⟩ := Text.quoteWith_append_inj hquoted
  exact ⟨hname, (List.cons.inj hrest).2⟩

/-- The description of a formula and what follows it determine both. -/
theorem describeWith_append_inj
    (h : (describeWith printable f).toList ++ xs = (describeWith printable g).toList ++ ys) :
    f = g ∧ xs = ys := by
  induction f generalizing g xs ys with
  | const value =>
    have hg : g = const value := hasShapeOf_of_append h
    rw [hg] at h
    exact ⟨hg.symm, List.append_cancel_left h⟩
  | atom a =>
    cases a with
    | bare name =>
      obtain ⟨name', rfl⟩ : ∃ name', g = atom (.bare name') := hasShapeOf_of_append h
      obtain ⟨rfl, hrest⟩ : name = name' ∧ xs = ys :=
        @name_eq_of_append _ _ _ (.bare name) (.bare name') rfl h
      exact ⟨rfl, hrest⟩
    | defined name =>
      obtain ⟨name', rfl⟩ : ∃ name', g = atom (.defined name') := hasShapeOf_of_append h
      obtain ⟨rfl, hrest⟩ : name = name' ∧ xs = ys :=
        @name_eq_of_append _ _ _ (.defined name) (.defined name') rfl h
      exact ⟨rfl, hrest⟩
  | neg f ih =>
    obtain ⟨g, rfl⟩ : ∃ g', g = neg g' := hasShapeOf_of_append h
    rw [describeWith_neg_append, describeWith_neg_append] at h
    obtain ⟨rfl, hrest⟩ := ih (List.append_cancel_left h)
    exact ⟨rfl, (List.cons.inj hrest).2⟩
  | join op f₁ f₂ ih₁ ih₂ =>
    obtain ⟨g₁, g₂, rfl⟩ : ∃ g₁ g₂, g = join op g₁ g₂ := hasShapeOf_of_append h
    rw [describeWith_join_append, describeWith_join_append, constructorName_join op f₁ f₂ g₁ g₂]
      at h
    obtain ⟨rfl, hcomma⟩ := ih₁ (List.cons.inj (List.append_cancel_left h)).2
    obtain ⟨rfl, hrest⟩ := ih₂ (List.cons.inj (List.cons.inj hcomma).2).2
    exact ⟨rfl, (List.cons.inj hrest).2⟩

/-- Whatever characters count as printable, two formulas have the same description just if they are
equal, and just if comparing them says that they are the same. -/
theorem describeWith_eq_iff (printable : Char → Bool) (f g : Condition) :
    (describeWith printable f = describeWith printable g ↔ f = g) ∧
      (describeWith printable f = describeWith printable g ↔ Formula.same f g = true) := by
  have hinj : describeWith printable f = describeWith printable g ↔ f = g := by
    constructor
    · intro h
      exact (@describeWith_append_inj printable f g [] [] (by rw [h])).1
    · intro h
      rw [h]
  exact ⟨hinj, hinj.trans (Formula.same_iff f g).symm⟩

example : describeWith (fun _ => true) (.neg (.atom (.bare "A'), Variable('B"))) =
    "Not(Variable(\"A'), Variable('B\"))" := by
  decide +kernel

end Conditionals.Formula
