import ThreeTears.Collections.CasLineage
import Mathlib.Data.Fintype.Basic

/-!
# What L3 keeps of the swaps

The order of the row in L3 never goes back and reaches that of every success, and as long as L2 does
not lose the key under a call, the row contains them. A swap whose persist is on its way when the
entry lapses or the bucket is created anew can be passed by one that never saw it.
-/

namespace ThreeTears

open StepSystem

namespace CasRun

open OrderedCell

variable {V P ι : Type*} {s s' : CasRun V P ι} {a : CasAct V P ι} {l3₀ : Option (CasRow V)}

variable [DecidableEq V] [DecidableEq P] [DecidableEq ι]

lemma LineageInv.step (h : s.LineageInv) (ho : s.OrderInv l3₀) (hc : s.CoverInv)
    (hk : s.KeepsKey a) (ht : s.step a = some s') : s'.LineageInv := by
  cases a with
  | call i a =>
    obtain ⟨⟨t, pc⟩, hcall, rfl⟩ := Option.map_eq_some_iff.1 ht
    have hm := callMoves_of_step hcall
    by_cases hkv : t.kv = s.tiers.kv
    · refine h.call hm hkv (hm.read (h.calls i) hkv ?_ ?_) ?_
      · rintro usa rfl
        exact hk
      · rintro live rfl
        exact hk
      rintro rfl
      exact hk
    obtain ⟨epoch, rev, new, hpc, hfr, rfl, hnext⟩ |
      ⟨rev, hpc, rfl, hrev, rfl, rfl⟩ := hm.writes hkv
    · exact h.swap hpc hfr hnext
    have hi : s.Still fun j => j = i := hk rev (by rw [hpc]; rfl) hrev
    refine h.lose ho hc hi (fun j => ?_) rfl ?_
    · rcases eq_or_ne j i with rfl | hj
      · simp [CasPc.PastRead]
      · simpa [hj] using hi.calls j hj
    refine le_of_lt (L2Order.lt_iff.2 (.inr ⟨rfl, ?_⟩))
    exact Nat.lt_succ_of_le s.tiers.kv.bound_le
  | flush p f a =>
    obtain ⟨next, hfl, rfl⟩ := Option.map_eq_some_iff.1 ht
    exact h.flush (flushMoves_of_step hfl)
  | recreate epoch =>
    simp only [CasRun.step] at ht
    split_ifs at ht with hlt
    cases ht
    refine h.lose ho hc hk (fun i => hk.calls i not_false) rfl ?_
    exact le_of_lt (L2Order.lt_iff.2 (.inl hlt))
  | lapse =>
    cases ht
    exact h.lose ho hc hk (fun i => hk.calls i not_false) rfl (L2Order.mk_le_mk s.tiers.kv.bound_le)
  | otherKey =>
    cases ht
    have hl : ∀ x, Play { s with tiers := { s.tiers with kv := s.tiers.kv.foreign } } x →
        s.Play x := by
      intro x hx
      cases hx with
      | l3 h => exact .l3 h
      | l2 h => exact .l2 h
      | acked h => exact .acked h
      | call i h => exact .call i h
      | buffered p h => exact .buffered p h
      | flushed p f h => exact .flushed p f h
    refine h.of_play hl (L2Order.mk_le_mk s.tiers.kv.bound_le_foreign) ?_
      fun i => (h.calls i).foreign rfl rfl rfl
    intro hnone
    have hr := h.resting hnone
    exact { hr with contained := fun x hx => hr.contained x (hl x hx) }

section Runs

variable {epoch : Nat} {l3 : Option (V × Option L2Order)} {durable : P → Bool}
  {acts : List (CasAct V P ι)}

end Runs

instance (s : CasRun V P ι) (a) : Decidable (s.Settles a) := by
  unfold Settles
  split <;> infer_instance

instance [Fintype P] [Fintype ι] (s : CasRun V P ι) (except : ι → Prop) [DecidablePred except] :
    Decidable (s.Still except) := decidable_of_iff' _ (still_iff s except)

instance [Fintype P] [Fintype ι] (s : CasRun V P ι) (a) : Decidable (s.KeepsKey a) := by
  unfold KeepsKey
  split <;> infer_instance

end CasRun

end ThreeTears
