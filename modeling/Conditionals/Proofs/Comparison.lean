/-
Conditionals.Proofs.Comparison — the classes of a row of items.

A row is sorted into classes by comparing each item with the items kept so
far, and of those only with the ones of its digest. Two items are to be the
same just if they have the same value; then

* `Comparison.firstAlike_eq` — each item is told the first item of its
  value;
* `Comparison.countDistinct_firstAlike` — as many items are kept as there
  are values;
* `Comparison.byValue_ofRow` — both together.

The digests only save comparisons: that items of one value have one digest
is all they need, and items of one digest may differ.
-/
import Conditionals.Comparison
import Mathlib.Data.Set.Card

namespace Conditionals.Comparison

/-- The comparison sorts the items of a row by their values. -/
structure ByValue {κ β : Type} (value : κ → β) (ks : List κ) (c : Comparison) : Prop where
  /-- Each item is told the first item of its value. -/
  class_eq : ∀ (i : Nat) (k : κ), ks[i]? = some k → ∃ j l, c.classes[i]? = some j ∧
    ks[j]? = some l ∧ value l = value k ∧ ∀ m ∈ ks.take j, value m ≠ value k
  /-- There are as many different items as values. -/
  distinct_eq : c.distinct = {v | ∃ k ∈ ks, value k = v}.ncard

/-- Sorting items by their values is sorting the values. -/
theorem ByValue.map {κ β : Type} {value : κ → β} {ks : List κ} {c : Comparison}
    (h : c.ByValue value ks) : c.ByValue id (ks.map value) where
  class_eq i v hv := by
    rw [List.getElem?_map] at hv
    obtain ⟨k, hk, rfl⟩ := Option.map_eq_some_iff.1 hv
    obtain ⟨j, l, hj, hl, hvalue, hfirst⟩ := h.class_eq i k hk
    refine ⟨j, value l, hj, ?_, hvalue, ?_⟩
    · rw [List.getElem?_map, hl, Option.map_some]
    · rw [← List.map_take, List.forall_mem_map]
      exact hfirst
  distinct_eq := by
    rw [h.distinct_eq]
    simp

section

variable {κ δ β : Type} [DecidableEq δ] {stamp : κ → δ} {same : κ → κ → Bool} {value : κ → β}

/-! ## Classes -/

/-- The items kept so far tell an item the first of those before it that it is the same as. -/
def Keeps (stamp : κ → δ) (same : κ → κ → Bool) (before : List κ) (kept : List (Nat × κ)) : Prop :=
  ∀ k, (kept.find? fun r => stamp r.2 = stamp k && same r.2 k).map Prod.fst =
    before.findIdx? fun l => same l k

/-- An item that is the same as one before it need not be kept. -/
theorem Keeps.skip {before : List κ} {kept : List (Nat × κ)} {k : κ} {j : Nat}
    (hsame : ∀ k l, same k l = true ↔ value k = value l) (h : Keeps stamp same before kept)
    (hj : (before.findIdx? fun l => same l k) = some j) : Keeps stamp same (before ++ [k]) kept := by
  intro m
  rw [h m, List.findIdx?_append]
  cases hm : before.findIdx? fun l => same l m with
  | some i => rfl
  | none =>
    -- The item before that is the same as `k` would be the same as `m`, too.
    have hkm : same k m = false := by
      rw [← Bool.not_eq_true]
      intro hkm
      obtain ⟨hlt, hlk, -⟩ := List.findIdx?_eq_some_iff_getElem.1 hj
      have hlm := (hsame before[j] m).2 (((hsame _ _).1 hlk).trans ((hsame _ _).1 hkm))
      rw [List.findIdx?_eq_none_iff] at hm
      rw [hm _ (List.getElem_mem hlt)] at hlm
      cases hlm
    simp [hkm]

/-- An item that differs from all before it is kept. -/
theorem Keeps.keep {before : List κ} {kept : List (Nat × κ)} {k : κ}
    (hsame : ∀ k l, same k l = true ↔ value k = value l)
    (hstamp : ∀ k l, value k = value l → stamp k = stamp l) (h : Keeps stamp same before kept) :
    Keeps stamp same (before ++ [k]) (kept ++ [(before.length, k)]) := by
  intro m
  rw [List.findIdx?_append, ← h m, List.find?_append]
  cases kept.find? fun r => stamp r.2 = stamp m && same r.2 m with
  | some r => rfl
  | none =>
    cases hkm : same k m with
    | false => simp [hkm]
    | true => simp [hkm, hstamp k m ((hsame k m).1 hkm)]

theorem firstAlikeFrom_eq (hsame : ∀ k l, same k l = true ↔ value k = value l)
    (hstamp : ∀ k l, value k = value l → stamp k = stamp l) {before : List κ}
    {kept : List (Nat × κ)} (h : Keeps stamp same before kept) (ks : List κ) :
    firstAlikeFrom stamp same kept before.length ks =
      ks.map fun k => (before ++ ks).findIdx fun l => same l k := by
  induction ks generalizing before kept with
  | nil => rfl
  | cons k ks ih =>
    have hself : same k k = true := (hsame k k).2 rfl
    have hlength : (before ++ [k]).length = before.length + 1 := by simp
    have happend : before ++ k :: ks = before ++ [k] ++ ks := by simp
    have hk := h k
    rw [firstAlikeFrom, List.map_cons]
    cases hfind : kept.find? fun r => stamp r.2 = stamp k && same r.2 k with
    | some r =>
      rw [hfind] at hk
      have hindex : (before ++ k :: ks).findIdx (fun l => same l k) = r.1 := by
        rw [List.findIdx_eq_getD_findIdx?, List.findIdx?_append, ← hk]
        rfl
      rw [hindex, happend, ← hlength]
      exact congrArg _ (ih (h.skip hsame hk.symm))
    | none =>
      rw [hfind] at hk
      have hindex : (before ++ k :: ks).findIdx (fun l => same l k) = before.length := by
        rw [List.findIdx_eq_getD_findIdx?, List.findIdx?_append, ← hk]
        simp [List.findIdx?_cons, hself]
      rw [hindex, happend, ← hlength]
      exact congrArg _ (ih (h.keep hsame hstamp))

/-- Each item is told the first item that it is the same as. -/
theorem firstAlike_eq (hsame : ∀ k l, same k l = true ↔ value k = value l)
    (hstamp : ∀ k l, value k = value l → stamp k = stamp l) (ks : List κ) :
    firstAlike stamp same ks = ks.map fun k => ks.findIdx fun l => same l k := by
  have hnone : Keeps stamp same [] [] := fun _ => rfl
  exact firstAlikeFrom_eq hsame hstamp hnone ks

/-! ## Different items -/

theorem countDistinct_append (classes : List Nat) (j : Nat) :
    countDistinct (classes ++ [j]) =
      countDistinct classes + if j = classes.length then 1 else 0 := by
  simp [countDistinct, List.zipIdx_append, List.countP_append]

/-- The items that are the first of their value are as many as there are values. -/
theorem countDistinct_firstAlike (hsame : ∀ k l, same k l = true ↔ value k = value l)
    (hstamp : ∀ k l, value k = value l → stamp k = stamp l) (ks : List κ) :
    countDistinct (firstAlike stamp same ks) = {v | ∃ k ∈ ks, value k = v}.ncard := by
  rw [firstAlike_eq hsame hstamp]
  induction ks using List.reverseRecOn with
  | nil => simp [countDistinct]
  | append_singleton ks k ih =>
    have hself : same k k = true := (hsame k k).2 rfl
    -- What an item is told does not change when others come behind it.
    have hbefore : (ks.map fun m => (ks ++ [k]).findIdx fun l => same l m) =
        ks.map fun m => ks.findIdx fun l => same l m := by
      refine List.map_congr_left fun m hm => ?_
      rw [List.findIdx_append, if_pos]
      exact List.findIdx_lt_length_of_exists ⟨m, hm, (hsame m m).2 rfl⟩
    have hvalues : {v | ∃ m ∈ ks ++ [k], value m = v} =
        insert (value k) {v | ∃ m ∈ ks, value m = v} := by
      ext v
      simp [or_comm, eq_comm]
    rw [List.map_append, hbefore, List.map_singleton, countDistinct_append, ih, hvalues,
      List.length_map]
    by_cases hk : value k ∈ {v | ∃ m ∈ ks, value m = v}
    case pos =>
      rw [Set.insert_eq_of_mem hk]
      obtain ⟨m, hm, hmk⟩ := hk
      have hlt : ks.findIdx (fun l => same l k) < ks.length :=
        List.findIdx_lt_length_of_exists ⟨m, hm, (hsame m k).2 hmk⟩
      rw [List.findIdx_append, if_pos hlt, if_neg (Nat.ne_of_lt hlt)]
      rfl
    case neg =>
      have hnone : ks.findIdx (fun l => same l k) = ks.length := by
        refine List.findIdx_eq_length.2 fun m hm => ?_
        rw [← Bool.not_eq_true]
        exact fun h => hk ⟨m, hm, (hsame m k).1 h⟩
      have hfinite : {v | ∃ m ∈ ks, value m = v}.Finite := by
        simpa using (ks.map value).finite_toSet
      rw [Set.ncard_insert_of_notMem hk hfinite, List.findIdx_append, hnone]
      simp [hself, List.findIdx_cons]

/-- Comparing the items of a row sorts them by their values. -/
theorem byValue_ofRow (hsame : ∀ k l, same k l = true ↔ value k = value l)
    (hstamp : ∀ k l, value k = value l → stamp k = stamp l) (ks : List κ) :
    (ofRow stamp same ks).ByValue value ks where
  class_eq i k hk := by
    have hlt : ks.findIdx (fun l => same l k) < ks.length :=
      List.findIdx_lt_length_of_exists ⟨k, List.mem_of_getElem? hk, (hsame k k).2 rfl⟩
    refine ⟨ks.findIdx fun l => same l k, ks[ks.findIdx fun l => same l k], ?_,
      List.getElem?_eq_getElem hlt, ?_, fun m hm hvalue => ?_⟩
    · rw [ofRow, firstAlike_eq hsame hstamp, List.getElem?_map, hk]
      rfl
    · exact (hsame _ k).1 (List.findIdx_getElem (p := fun l => same l k))
    · obtain ⟨j, hj, rfl⟩ := List.getElem_of_mem hm
      rw [List.length_take] at hj
      have hnot := List.not_of_lt_findIdx (Nat.lt_of_lt_of_le hj (Nat.min_le_left ..))
      rw [List.getElem_take] at hvalue
      exact absurd ((hsame _ k).2 hvalue) (Bool.eq_false_iff.1 hnot)
  distinct_eq := countDistinct_firstAlike hsame hstamp ks

end

end Conditionals.Comparison
