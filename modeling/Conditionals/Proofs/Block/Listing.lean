/-
Conditionals.Proofs.Block.Listing — a forest of blocks line by line.

`Block.listingAll` writes a forest down as the events met on the way
through the file: each block as the line that opens it, the events of its
children, and the line that closes it.

* `Block.outlines_eq_of_listing` — the listing determines the forest, up
  to what no line says (`Outline`): events are brackets that match in one
  way only;
* `Block.ordered_of_ascending`, `Block.apart_of_ascending` — where the
  lines of the listing ascend, blocks are nested and do not cross;
* `Block.bounds_perm` — every line of the listing bounds one block;
* `Block.pairwise_walkAll` — the walk is in the order of the first lines;
* `Block.closingOrder` — the blocks in the order of their last lines.
-/
import Conditionals.Proofs.Block.Forest

namespace Conditionals

/-! ## Events -/

/-- A line that opens a block or closes one. -/
inductive Event where
  | opening (line : Int) (condition : Condition)
  | closing (line : Int)
  deriving DecidableEq, Repr

namespace Event

def line : Event → Int
  | opening line _ => line
  | closing line => line

def isOpening : Event → Bool
  | opening .. => true
  | closing _ => false

/-- How many blocks are opened. -/
def openings (es : List Event) : Nat :=
  es.countP isOpening

/-- How many blocks are closed. -/
def closings (es : List Event) : Nat :=
  es.countP fun e => !e.isOpening

/-- The line numbers grow from event to event. -/
def Ascending (es : List Event) : Prop :=
  es.Pairwise fun d e => d.line < e.line

end Event

/-! ## Listings -/

/-- What the lines of a file say about a block. -/
inductive Outline where
  | region (startLine endLine : Int) (condition : Condition) (children : List Outline)

namespace Block

mutual

/-- The events of a block. -/
def listing : Block → List Event
  | ⟨startLine, endLine, _, condition, _, children⟩ =>
    .opening startLine condition :: (listingAll children ++ [.closing endLine])

/-- The events of several blocks in a row. -/
def listingAll : List Block → List Event
  | [] => []
  | b :: bs => b.listing ++ listingAll bs

end

mutual

/-- A block without its path and its presence condition. -/
def outline : Block → Outline
  | ⟨startLine, endLine, _, condition, _, children⟩ =>
    .region startLine endLine condition (outlines children)

def outlines : List Block → List Outline
  | [] => []
  | b :: bs => b.outline :: outlines bs

end

theorem listing_eq (b : Block) :
    b.listing = .opening b.startLine b.condition ::
      (listingAll b.children ++ [.closing b.endLine]) := by
  cases b
  rfl

theorem outline_eq (b : Block) :
    b.outline = .region b.startLine b.endLine b.condition (outlines b.children) := by
  cases b
  rfl

theorem listingAll_cons (b : Block) (bs : List Block) :
    listingAll (b :: bs) = .opening b.startLine b.condition ::
      (listingAll b.children ++ .closing b.endLine :: listingAll bs) := by
  rw [listingAll, listing_eq]
  simp

theorem listingAll_append (bs cs : List Block) :
    listingAll (bs ++ cs) = listingAll bs ++ listingAll cs := by
  induction bs with
  | nil => rfl
  | cons b bs ih => rw [List.cons_append, listingAll, ih, listingAll, List.append_assoc]

theorem listingAll_singleton (b : Block) : listingAll [b] = b.listing := by
  rw [listingAll, listingAll, List.append_nil]

/-! ## The forest from its listing -/

/-- Two forests whose listings go on alike are alike, if no block is opened where the listings
end. -/
theorem outlines_eq_of_append {bs cs : List Block} {es fs : List Event}
    (he : es.head?.any Event.isOpening = false) (hf : fs.head?.any Event.isOpening = false)
    (h : listingAll bs ++ es = listingAll cs ++ fs) : outlines bs = outlines cs ∧ es = fs := by
  induction bs using forest_induction generalizing cs es fs with
  | nil =>
    cases cs with
    | nil => exact ⟨rfl, h⟩
    | cons c cs =>
      -- The one listing has ended, the other one opens a block.
      rw [listingAll_cons] at h
      rw [show es = _ from h] at he
      cases he
  | cons b bs ihc ih =>
    cases cs with
    | nil =>
      rw [listingAll_cons] at h
      rw [show fs = _ from h.symm] at hf
      cases hf
    | cons c cs =>
      rw [listingAll_cons, listingAll_cons, List.cons_append, List.cons_append, List.cons.injEq,
        List.append_assoc, List.append_assoc] at h
      obtain ⟨hopen, hrest⟩ := h
      obtain ⟨hchildren, hclose⟩ := ihc rfl rfl hrest
      rw [List.cons_append, List.cons_append, List.cons.injEq] at hclose
      obtain ⟨hend, hrest⟩ := hclose
      obtain ⟨hothers, heq⟩ := ih he hf hrest
      rw [Event.opening.injEq] at hopen
      rw [Event.closing.injEq] at hend
      refine ⟨?_, heq⟩
      rw [outlines, outlines, outline_eq, outline_eq, hopen.1, hopen.2, hend, hchildren, hothers]

/-- The listing of a forest determines all but the paths and the presence conditions. -/
theorem outlines_eq_of_listing {bs cs : List Block} (h : listingAll bs = listingAll cs) :
    outlines bs = outlines cs := by
  have happ : listingAll bs ++ [] = listingAll cs ++ [] := by rw [h]
  exact (outlines_eq_of_append rfl rfl happ).1

/-! ## Lines -/

theorem opening_mem_listing (b : Block) : .opening b.startLine b.condition ∈ b.listing := by
  rw [listing_eq]
  exact List.mem_cons_self

theorem closing_mem_listing (b : Block) : .closing b.endLine ∈ b.listing := by
  rw [listing_eq]
  simp

theorem mem_listingAll {b : Block} {bs : List Block} {e : Event} (hb : b ∈ bs)
    (he : e ∈ b.listing) : e ∈ listingAll bs := by
  induction bs with
  | nil => cases hb
  | cons a bs ih =>
    rw [listingAll, List.mem_append]
    rcases List.mem_cons.1 hb with rfl | hb
    · exact .inl he
    · exact .inr (ih hb)

/-- The listing of a block stands in one piece in that of the forest. -/
theorem listing_within {b : Block} {bs : List Block} (h : b ∈ walkAll bs) :
    b.listing <:+: listingAll bs := by
  induction bs using forest_induction with
  | nil =>
    rw [walkAll] at h
    cases h
  | cons a bs ihc ih =>
    rw [listingAll]
    rcases mem_walkAll_cons.1 h with rfl | hc | hbs
    · exact (List.prefix_append _ _).isInfix
    · have hin : listingAll a.children <:+: a.listing :=
        ⟨[.opening a.startLine a.condition], [.closing a.endLine], by rw [listing_eq]; rfl⟩
      exact ((ihc hc).trans hin).trans (List.prefix_append _ _).isInfix
    · exact (ih hbs).trans (List.suffix_append _ _).isInfix

/-- The line that opens a block of a forest is one of its listing. -/
theorem opening_mem_listingAll {b : Block} {bs : List Block} (h : b ∈ walkAll bs) :
    .opening b.startLine b.condition ∈ listingAll bs :=
  (listing_within h).subset b.opening_mem_listing

/-- An event of a listing opens or closes a block of the forest. -/
theorem exists_of_mem_listingAll {bs : List Block} {e : Event} (h : e ∈ listingAll bs) :
    ∃ b ∈ walkAll bs, e = .opening b.startLine b.condition ∨ e = .closing b.endLine := by
  induction bs using forest_induction with
  | nil => cases h
  | cons b bs ihc ih =>
    rw [listingAll_cons, List.mem_cons, List.mem_append, List.mem_cons] at h
    rcases h with rfl | hc | rfl | hbs
    · exact ⟨b, mem_walkAll_cons.2 (.inl rfl), .inl rfl⟩
    · obtain ⟨a, ha, he⟩ := ihc hc
      exact ⟨a, mem_walkAll_cons.2 (.inr (.inl ha)), he⟩
    · exact ⟨b, mem_walkAll_cons.2 (.inl rfl), .inr rfl⟩
    · obtain ⟨a, ha, he⟩ := ih hbs
      exact ⟨a, mem_walkAll_cons.2 (.inr (.inr ha)), he⟩

/-- A block reaches beyond each of its children, and these follow one another. -/
structure Ordered (b : Block) : Prop where
  start_lt_end : b.startLine < b.endLine
  inside : ∀ c ∈ b.children, b.startLine < c.startLine ∧ c.endLine < b.endLine
  apart : b.children.Pairwise fun c d => c.endLine < d.startLine

theorem apart_of_ascending {bs : List Block} (h : Event.Ascending (listingAll bs)) :
    bs.Pairwise fun c d => c.endLine < d.startLine := by
  induction bs with
  | nil => exact .nil
  | cons b bs ih =>
    rw [listingAll] at h
    obtain ⟨-, hbs, hlt⟩ := List.pairwise_append.1 h
    refine List.pairwise_cons.2 ⟨fun c hc => ?_, ih hbs⟩
    exact hlt _ b.closing_mem_listing _ (mem_listingAll hc c.opening_mem_listing)

theorem ordered_of_ascending {b : Block} (h : Event.Ascending b.listing) : b.Ordered := by
  rw [listing_eq] at h
  obtain ⟨hstart, h⟩ := List.pairwise_cons.1 h
  obtain ⟨hchildren, -, hend⟩ := List.pairwise_append.1 h
  refine ⟨hstart (.closing b.endLine) (by simp), fun c hc => ⟨?_, ?_⟩,
    apart_of_ascending hchildren⟩
  · have hmem := mem_listingAll hc c.opening_mem_listing
    exact hstart _ (List.mem_append_left _ hmem)
  · have hmem := mem_listingAll hc c.closing_mem_listing
    exact hend _ hmem _ (List.mem_singleton_self _)

theorem ordered_of_mem_walkAll {b : Block} {bs : List Block} (h : Event.Ascending (listingAll bs))
    (hb : b ∈ walkAll bs) : b.Ordered := by
  have hlisting : Event.Ascending b.listing :=
    List.Pairwise.sublist (listing_within hb).sublist h
  exact ordered_of_ascending hlisting

/-- The first and last lines of all blocks are the lines of the listing. -/
theorem bounds_perm (bs : List Block) :
    (walkAll bs).flatMap (fun b => [b.startLine, b.endLine]) |>.Perm
      ((listingAll bs).map Event.line) := by
  induction bs using forest_induction with
  | nil => simp [walkAll, listingAll]
  | cons b bs ihc ih =>
    rw [walkAll_cons, List.flatMap_cons, List.flatMap_append, listingAll_cons, List.map_cons,
      List.map_append, List.map_cons]
    refine .cons _ ?_
    exact (List.Perm.cons _ (ihc.append ih)).trans List.perm_middle.symm

/-- A forest has two events for each block. -/
theorem length_listingAll (bs : List Block) :
    (listingAll bs).length = 2 * (walkAll bs).length := by
  have hlength := (bounds_perm bs).length_eq
  rw [List.length_map, List.length_flatMap] at hlength
  simpa [List.map_const', Nat.mul_comm] using hlength.symm

theorem nodup_bounds {bs : List Block} (h : Event.Ascending (listingAll bs)) :
    ((walkAll bs).flatMap fun b => [b.startLine, b.endLine]).Nodup := by
  rw [(bounds_perm bs).nodup_iff, List.Nodup, List.pairwise_map]
  exact h.imp fun hlt => Int.ne_of_lt hlt

/-! ## The order of opening -/

/-- The opening events of a forest. -/
theorem filter_isOpening_listingAll (bs : List Block) :
    (listingAll bs).filter Event.isOpening =
      (walkAll bs).map fun b => .opening b.startLine b.condition := by
  induction bs using forest_induction with
  | nil => rw [listingAll, walkAll]; rfl
  | cons b bs ihc ih =>
    rw [listingAll_cons, walkAll_cons, List.filter_cons_of_pos rfl, List.filter_append, ihc,
      List.filter_cons_of_neg Bool.false_ne_true, ih, List.map_cons, List.map_append]

/-- The walk goes through the blocks in the order of their first lines. -/
theorem pairwise_walkAll {bs : List Block} (h : Event.Ascending (listingAll bs)) :
    (walkAll bs).Pairwise fun b c => b.startLine < c.startLine := by
  have hopening := h.filter Event.isOpening
  rw [filter_isOpening_listingAll, List.pairwise_map] at hopening
  exact hopening

/-! ## The order of closing -/

/-- The blocks of several trees in the order in which they are closed: each behind those inside
it. -/
def closingOrder : List Block → List Block
  | [] => []
  | b :: bs => closingOrder b.children ++ b :: closingOrder bs
  termination_by trees => countAll trees
  decreasing_by
    · rw [countAll_cons]
      omega
    · rw [countAll_cons]
      omega

theorem closingOrder_perm (bs : List Block) : (closingOrder bs).Perm (walkAll bs) := by
  induction bs using forest_induction with
  | nil => rw [closingOrder, walkAll]
  | cons b bs ihc ih =>
    rw [closingOrder, walkAll_cons]
    exact List.perm_middle.trans ((ihc.append ih).cons b)

/-- The closing events of a forest. -/
theorem filter_listingAll (bs : List Block) :
    ((listingAll bs).filter fun e => !e.isOpening) =
      (closingOrder bs).map fun b => .closing b.endLine := by
  induction bs using forest_induction with
  | nil => rw [listingAll, closingOrder]; rfl
  | cons b bs ihc ih =>
    rw [listingAll_cons, closingOrder, List.filter_cons_of_neg Bool.false_ne_true,
      List.filter_append, ihc, List.filter_cons_of_pos rfl, ih, List.map_append, List.map_cons]

theorem pairwise_closingOrder {bs : List Block} (h : Event.Ascending (listingAll bs)) :
    (closingOrder bs).Pairwise fun b c => b.endLine < c.endLine := by
  have hclosing := h.filter fun e => !e.isOpening
  rw [filter_listingAll, List.pairwise_map] at hclosing
  exact hclosing

end Block

end Conditionals
