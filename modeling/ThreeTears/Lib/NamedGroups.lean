import Mathlib.Algebra.BigOperators.Group.Finset.Piecewise

/-!
# Rows in named groups

Rows by the value of a function, a group for each value, and each group under a name of its own.
Some groups are replaced and some dropped; the others stay under their names.
-/

namespace ThreeTears

open Finset

variable {α β γ P : Type*} [DecidableEq β]

/-- Rows are their groups. -/
theorem sum_groups [DecidableEq α] (m : Multiset α) (f : α → β) :
    ∑ b ∈ (m.map f).toFinset, m.filter (f · = b) = m := by
  ext a
  rw [Multiset.count_sum']
  simp only [Multiset.count_filter, sum_ite_eq, Multiset.mem_toFinset]
  split_ifs with h
  · rfl
  · exact (Multiset.count_eq_zero.2 fun ha => h (Multiset.mem_map_of_mem f ha)).symm

variable [DecidableEq P] {name : β → P} {old new : β → γ} {A B W : Finset β}

lemma filter_named_eq (hna : Function.Injective name) (hk : ∀ b ∈ B, b ∉ W → b ∈ A) :
    (A.val.map fun b => (name b, old b)).filter (fun p =>
      p.1 ∉ (W.val.map fun b => (name b, new b)).map Prod.fst ∧ p.1 ∉ (A \ B).image name) =
    (B \ W).val.map fun b => (name b, old b) := by
  have hfs : (W.val.map fun b => (name b, new b)).map Prod.fst = W.val.map name := by
    rw [Multiset.map_map]
    rfl
  have hi : A.filter (fun b => b ∉ W ∧ b ∉ A \ B) = B \ W := by
    ext b
    simp only [mem_filter, mem_sdiff]
    constructor
    · rintro ⟨hA, hW, hB⟩
      exact ⟨by_contra fun hb => hB ⟨hA, hb⟩, hW⟩
    rintro ⟨hB, hW⟩
    exact ⟨hk b hB hW, hW, fun h => h.2 hB⟩
  rw [hfs, Multiset.filter_map, ← hi, filter_val]
  refine congrArg _ (Multiset.filter_congr fun b _ => ?_)
  simp only [Function.comp_apply, Multiset.mem_map_of_injective hna, hna.mem_finset_image]
  rfl

/-- The groups `B` under their names, of which `W` are written and the others are those of `A`. -/
theorem replace_named_eq (hna : Function.Injective name) (hW : W ⊆ B)
    (hk : ∀ b ∈ B, b ∉ W → b ∈ A ∧ old b = new b) :
    (A.val.map fun b => (name b, old b)).filter (fun p =>
      p.1 ∉ (W.val.map fun b => (name b, new b)).map Prod.fst ∧ p.1 ∉ (A \ B).image name) +
      W.val.map (fun b => (name b, new b)) = B.val.map fun b => (name b, new b) := by
  have hold : (B \ W).val.map (fun b => (name b, old b)) =
      (B \ W).val.map fun b => (name b, new b) := by
    refine Multiset.map_congr rfl fun b hb => ?_
    obtain ⟨hB, hW⟩ := mem_sdiff.1 hb
    rw [(hk b hB hW).2]
  rw [filter_named_eq hna fun b hB hW => (hk b hB hW).1, hold, ← Multiset.map_add,
    sdiff_val, tsub_add_cancel_of_le (val_le_iff.2 hW)]

end ThreeTears
