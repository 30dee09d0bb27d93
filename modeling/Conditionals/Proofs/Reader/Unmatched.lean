/-
Conditionals.Proofs.Reader.Unmatched — opening directives that no closing one
answers.

An opening event is unmatched if the events behind it never close more
blocks than they open (`Event.Unmatched`). The listing of a forest has no
such event (`Block.not_unmatched_listingAll`), and among the events that a
session has read they are those of its open blocks
(`Session.unmatched_listing_iff`), the innermost of which begins last where
the lines ascend (`Session.isGreatest_unmatched`).
-/
import Mathlib.Order.Bounds.Defs
import Conditionals.Proofs.Reader.Structure

namespace Conditionals

/-! ## Events -/

namespace Event

variable {xs ys es : List Event} {depth : Nat} {line : Int}

/-- A block is opened on the line, and no event behind it closes the block. -/
def Unmatched (es : List Event) (line : Int) : Prop :=
  ∃ before c after, es = before ++ .opening line c :: after ∧ Guarded 0 after

@[simp] theorem openings_opening (number : Int) (c : Condition) (es : List Event) :
    openings (.opening number c :: es) = openings es + 1 :=
  List.countP_cons_of_pos rfl

@[simp] theorem openings_closing (number : Int) (es : List Event) :
    openings (.closing number :: es) = openings es :=
  List.countP_cons_of_neg Bool.false_ne_true

@[simp] theorem closings_opening (number : Int) (c : Condition) (es : List Event) :
    closings (.opening number c :: es) = closings es :=
  List.countP_cons_of_neg Bool.false_ne_true

@[simp] theorem closings_closing (number : Int) (es : List Event) :
    closings (.closing number :: es) = closings es + 1 :=
  List.countP_cons_of_pos rfl

theorem Guarded.mono {more : Nat} (h : Guarded depth es) (hle : depth ≤ more) :
    Guarded more es := by
  intro p hp
  have := h p hp
  omega

theorem Guarded.append (hxs : Guarded 0 xs) (hys : Guarded 0 ys) : Guarded 0 (xs ++ ys) := by
  have hle : closings xs ≤ 0 + openings xs := hxs xs List.prefix_rfl
  have hdepth : openings xs - closings xs + closings xs = 0 + openings xs := by omega
  exact (guarded_append_iff hdepth).2 ⟨hxs, hys.mono (Nat.zero_le _)⟩

/-- Events that close no block opened before them leave it unmatched. -/
theorem unmatched_append_iff (hys : Guarded 0 ys) :
    Unmatched (xs ++ ys) line ↔ Unmatched xs line ∨ Unmatched ys line := by
  constructor
  · rintro ⟨before, c, after, heq, ha⟩
    rcases List.append_eq_append_iff.1 heq with ⟨as, rfl, has⟩ | ⟨bs, rfl, hbs⟩
    · exact .inr ⟨as, c, after, has, ha⟩
    · cases bs with
      | nil => exact .inr ⟨[], c, after, hbs.symm, ha⟩
      | cons b bs =>
        rw [List.cons_append, List.cons.injEq] at hbs
        obtain ⟨rfl, rfl⟩ := hbs
        exact .inl ⟨before, c, bs, rfl, ha.of_append⟩
  · rintro (⟨before, c, after, rfl, ha⟩ | ⟨before, c, after, rfl, ha⟩)
    · exact ⟨before, c, after ++ ys, by rw [List.append_assoc, List.cons_append], ha.append hys⟩
    · exact ⟨xs ++ before, c, after, (List.append_assoc ..).symm, ha⟩

theorem not_unmatched_nil : ¬ Unmatched [] line := by
  rintro ⟨before, c, after, heq, -⟩
  simp at heq

theorem unmatched_opening_iff {number : Int} {c : Condition} :
    Unmatched [.opening number c] line ↔ line = number := by
  constructor
  · rintro ⟨before, c', after, heq, -⟩
    rcases List.singleton_eq_append_iff.1 heq with ⟨-, h⟩ | ⟨-, h⟩
    · cases h
      rfl
    · cases h
  · rintro rfl
    exact ⟨[], c, [], rfl, guarded_nil 0⟩

end Event

/-! ## Listings -/

namespace Block

open Event (Guarded Unmatched openings closings)

/-- A listing closes as many blocks as it opens. -/
theorem openings_listingAll (bs : List Block) :
    openings (listingAll bs) = closings (listingAll bs) := by
  induction bs using forest_induction with
  | nil => rfl
  | cons b bs ihc ih =>
    simp only [listingAll_cons, Event.openings_opening, Event.closings_opening,
      Event.openings_append, Event.closings_append, Event.openings_closing,
      Event.closings_closing, ihc, ih]
    omega

/-- A listing closes no block that is opened before it. -/
theorem guarded_listingAll (bs : List Block) : Guarded 0 (listingAll bs) := by
  induction bs using forest_induction with
  | nil => exact Event.guarded_nil 0
  | cons b bs ihc ih =>
    have hopened : 1 + closings [.opening b.startLine b.condition] =
        0 + openings [.opening b.startLine b.condition] := rfl
    have hchildren : 1 + closings (listingAll b.children) =
        1 + openings (listingAll b.children) := by rw [openings_listingAll]
    have hclosed : 0 + closings [.closing b.endLine] = 1 + openings [.closing b.endLine] := rfl
    have hbehind : Guarded 1 ([.closing b.endLine] ++ listingAll bs) :=
      (Event.guarded_append_iff hclosed).2
        ⟨(Event.guarded_closing_iff 1 b.endLine).2 Nat.one_pos, ih⟩
    have hinside : Guarded 1 (listingAll b.children ++ ([.closing b.endLine] ++ listingAll bs)) :=
      (Event.guarded_append_iff hchildren).2 ⟨ihc.mono (Nat.zero_le 1), hbehind⟩
    rw [listingAll_cons]
    exact (Event.guarded_append_iff hopened).2 ⟨Event.guarded_opening 0 _ _, hinside⟩

/-- In a listing every opening is answered: what follows one closes more blocks than it opens. -/
theorem not_unmatched_listingAll {bs : List Block} {line : Int} :
    ¬ Unmatched (listingAll bs) line := by
  rintro ⟨before, c, after, heq, ha⟩
  have hbefore : closings before ≤ 0 + openings before :=
    guarded_listingAll bs before (by rw [heq]; exact List.prefix_append ..)
  have hafter : closings after ≤ 0 + openings after := ha after List.prefix_rfl
  have htotal := openings_listingAll bs
  rw [heq, Event.openings_append, Event.closings_append, Event.openings_opening,
    Event.closings_opening] at htotal
  omega

end Block

/-! ## Open blocks -/

open Event (Guarded Unmatched)

namespace OpenBlock

theorem guarded_listing (b : OpenBlock) : Guarded 0 b.listing :=
  (Event.guarded_opening 0 b.startLine b.condition).append (Block.guarded_listingAll b.children)

theorem unmatched_listing_iff {b : OpenBlock} {line : Int} :
    Unmatched b.listing line ↔ line = b.startLine := by
  rw [listing, ← List.singleton_append,
    Event.unmatched_append_iff (Block.guarded_listingAll b.children), Event.unmatched_opening_iff]
  exact or_iff_left Block.not_unmatched_listingAll

theorem guarded_flatMap_listing (bs : List OpenBlock) : Guarded 0 (bs.flatMap listing) := by
  induction bs with
  | nil => exact Event.guarded_nil 0
  | cons b bs ih => exact b.guarded_listing.append ih

theorem unmatched_flatMap_listing_iff {bs : List OpenBlock} {line : Int} :
    Unmatched (bs.flatMap listing) line ↔ ∃ b ∈ bs, line = b.startLine := by
  induction bs with
  | nil => simp [Event.not_unmatched_nil]
  | cons b bs ih =>
    rw [List.flatMap_cons, Event.unmatched_append_iff (guarded_flatMap_listing bs),
      unmatched_listing_iff, ih]
    simp

end OpenBlock

namespace Session

variable {s : Session}

/-- The unmatched openings among the events read are those of the open blocks. -/
theorem unmatched_listing_iff {line : Int} :
    Unmatched s.listing line ↔ ∃ b ∈ s.nesting, line = b.startLine := by
  rw [listing, Event.unmatched_append_iff (OpenBlock.guarded_flatMap_listing _),
    OpenBlock.unmatched_flatMap_listing_iff]
  simp [Block.not_unmatched_listingAll]

theorem nesting_eq_nil_iff : s.nesting = [] ↔ ∀ line, ¬ Unmatched s.listing line := by
  simp only [unmatched_listing_iff]
  constructor
  · intro hn line
    rw [hn]
    rintro ⟨b, hb, -⟩
    cases hb
  · intro h
    rw [List.eq_nil_iff_forall_not_mem]
    intro b hb
    exact h b.startLine ⟨b, hb, rfl⟩

/-- The innermost open block begins on the last line with an unmatched opening. -/
theorem isGreatest_unmatched {b : OpenBlock} {outer : List OpenBlock}
    (hn : s.nesting = b :: outer) (ha : Event.Ascending s.listing) :
    IsGreatest {line | Unmatched s.listing line} b.startLine := by
  refine ⟨unmatched_listing_iff.2 ⟨b, by rw [hn]; exact List.mem_cons_self, rfl⟩, ?_⟩
  intro line hline
  obtain ⟨o, ho, rfl⟩ := unmatched_listing_iff.1 hline
  rw [hn] at ho
  rcases List.mem_cons.1 ho with rfl | ho
  · exact Int.le_refl _
  · rw [listing_of_nesting hn] at ha
    obtain ⟨-, -, hlt⟩ := List.pairwise_append.1 ha
    have hmem : Event.opening o.startLine o.condition ∈ outer.reverse.flatMap OpenBlock.listing :=
      List.mem_flatMap.2 ⟨o, List.mem_reverse.2 ho, List.mem_cons_self⟩
    exact Int.le_of_lt (hlt _ (List.mem_append_right _ hmem) _ List.mem_cons_self)

end Session

end Conditionals
