/-
Conditionals.Proofs.Block.Forest — induction over forests of blocks.

A block holds its children in a list, so the data to induct on is the
list of blocks: `Block.forest_induction` asks for the empty forest, and
for a forest from its first tree's children and its other trees. With it,
`Block.walkAll`, which works on one flat list of trees still to be
visited, is seen to visit one tree after another
(`Block.walkAll_append`). Blocks with other lines and paths are walked
through in the same way (`Block.walkAll_mapAll`).
-/
import Conditionals.Block.Basic
import Mathlib.Logic.Function.Defs

namespace Conditionals.Block

variable {Line Path Line' Path' : Type} {f : Line → Line'} {g : Path → Path'}

theorem countAll_cons (b : Block Line Path) (bs : List (Block Line Path)) :
    countAll (b :: bs) = 1 + countAll b.children + countAll bs := by
  rw [countAll, count_eq]

/-- Induction over forests. -/
@[elab_as_elim]
theorem forest_induction {P : List (Block Line Path) → Prop} (nil : P [])
    (cons : ∀ b bs, P b.children → P bs → P (b :: bs)) : ∀ bs, P bs
  | [] => nil
  | b :: bs => cons b bs (forest_induction nil cons b.children) (forest_induction nil cons bs)
  termination_by bs => countAll bs
  decreasing_by
    · rw [countAll_cons]
      omega
    · rw [countAll_cons]
      omega

theorem walkAll_append (bs cs : List (Block Line Path)) : walkAll (bs ++ cs) = walkAll bs ++ walkAll cs := by
  induction bs using forest_induction generalizing cs with
  | nil => rw [walkAll, List.nil_append, List.nil_append]
  | cons b bs ihc ih =>
    rw [List.cons_append, walkAll, ihc, ih, walkAll, ihc, List.cons_append, List.append_assoc]

theorem walkAll_cons (b : Block Line Path) (bs : List (Block Line Path)) :
    walkAll (b :: bs) = b :: (walkAll b.children ++ walkAll bs) := by
  rw [walkAll, walkAll_append]

theorem mem_walkAll_cons {a b : Block Line Path} {bs : List (Block Line Path)} :
    a ∈ walkAll (b :: bs) ↔ a = b ∨ a ∈ walkAll b.children ∨ a ∈ walkAll bs := by
  rw [walkAll_cons, List.mem_cons, List.mem_append]

/-! ## Other lines and paths -/

theorem walkAll_mapAll (bs : List (Block Line Path)) :
    walkAll (mapAll f g bs) = (walkAll bs).map (map f g) := by
  induction bs using forest_induction with
  | nil => rw [mapAll, walkAll, walkAll, List.map_nil]
  | cons b bs ihc ih =>
    rw [mapAll, walkAll_cons, walkAll_cons, ih, List.map_cons, List.map_append, ← ihc, map_eq]

theorem mapAll_injective (hf : Function.Injective f) (hg : Function.Injective g) :
    Function.Injective (mapAll f g) := by
  intro bs
  induction bs using forest_induction with
  | nil =>
    intro cs h
    cases cs with
    | nil => rfl
    | cons c cs => cases h
  | cons b bs ihc ih =>
    intro cs h
    cases cs with
    | nil => cases h
    | cons c cs =>
      obtain ⟨startLine, endLine, path, condition, presence, children⟩ := b
      obtain ⟨startLine', endLine', path', condition', presence', children'⟩ := c
      simp only [mapAll, map, List.cons.injEq, mk.injEq] at h
      obtain ⟨⟨hstart, hend, hpath, rfl, rfl, hchildren⟩, hbs⟩ := h
      obtain rfl := hf hstart
      obtain rfl := hf hend
      obtain rfl := hg hpath
      obtain rfl : children = children' := ihc hchildren
      rw [ih hbs]

end Conditionals.Block
