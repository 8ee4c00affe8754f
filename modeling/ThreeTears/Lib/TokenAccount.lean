import Mathlib.Algebra.BigOperators.Group.List.Basic
import Mathlib.Algebra.Order.Field.Basic
import Mathlib.Tactic.Linarith

/-!
# An account that refills

An account holds tokens up to a capacity and refills at a rate. Every movement has the reading of
the clock it was computed with and the time it took effect. As long as the readings do not go back
and only the latest grant is given back, the tokens outstanding in an interval are bounded by the
capacity and what refills in it.
-/

namespace TokenAccount

open List

variable {K : Type*}

/-- Tokens granted, and the reading and time at which they were given back, if they were. -/
structure Grant (K : Type*) where
  amount : K
  reading : K
  time : K
  refund : Option (K × K)

def Grant.Counts (W : K → K → Prop) (g : Grant K) : Prop :=
  W g.reading g.time ∧ ∀ x ∈ g.refund, ¬ W x.1 x.2

instance (W : K → K → Prop) [∀ r t, Decidable (W r t)] (g : Grant K) : Decidable (g.Counts W) :=
  inferInstanceAs (Decidable (_ ∧ ∀ x ∈ g.refund, ¬ W x.1 x.2))

def outstanding [AddMonoid K] (W : K → K → Prop) [∀ r t, Decidable (W r t)]
    (grants : List (Grant K)) : K :=
  (grants.map fun g => if g.Counts W then g.amount else 0).sum

section Outstanding

variable [AddMonoid K] {W W' : K → K → Prop} [∀ r t, Decidable (W r t)]
  [∀ r t, Decidable (W' r t)] {g g' : Grant K} {grants : List (Grant K)}

@[simp] lemma outstanding_nil : outstanding W ([] : List (Grant K)) = 0 := rfl

lemma outstanding_cons_of_counts (h : g.Counts W) :
    outstanding W (g :: grants) = g.amount + outstanding W grants := by
  simp [outstanding, h]

lemma outstanding_cons_of_not_counts (h : ¬ g.Counts W) :
    outstanding W (g :: grants) = outstanding W grants := by
  simp [outstanding, h]

lemma outstanding_congr (h : ∀ g ∈ grants, g.Counts W ↔ g.Counts W') :
    outstanding W grants = outstanding W' grants := by
  unfold outstanding
  congr 1
  refine map_congr_left fun g hg => ?_
  simp [h g hg]

lemma outstanding_cons_congr (h : g.Counts W ↔ g'.Counts W) (hamount : g.amount = g'.amount) :
    outstanding W (g :: grants) = outstanding W (g' :: grants) := by
  simp [outstanding, h, hamount]

lemma outstanding_eq_zero (h : ∀ g ∈ grants, ¬ W g.reading g.time) : outstanding W grants = 0 := by
  refine sum_eq_zero fun x hx => ?_
  obtain ⟨g, hg, rfl⟩ := mem_map.1 hx
  exact if_neg fun hc => h g hg hc.1

end Outstanding

variable [Field K] [LinearOrder K] [IsStrictOrderedRing K]

def available (rate cap : K) : Option (K × K) → K → K
  | none, _ => cap
  | some (tokens, last), reading => min cap (tokens + max 0 (reading - last) * rate)

/-- The accounts reached by movements whose reading and time are related by `E`: the grants, newest
first, the tokens with the reading they are as of, and the time of the last movement. -/
inductive Reached (rate cap : K) (E : K → K → Prop) :
    List (Grant K) → Option (K × K) → K → Prop
  | fresh (time : K) : Reached rate cap E [] none time
  | grant {grants account last reading time amount} (h : Reached rate cap E grants account last)
      (hevent : E reading time) (htime : last ≤ time) (hreading : ∀ x ∈ account, x.2 ≤ reading)
      (hamount : amount ≤ available rate cap account reading) :
    Reached rate cap E (⟨amount, reading, time, none⟩ :: grants)
      (some (available rate cap account reading - amount, reading)) time
  | refund {g grants account last reading time} (h : Reached rate cap E (g :: grants) account last)
      (hevent : E reading time) (htime : last ≤ time) (hreading : ∀ x ∈ account, x.2 ≤ reading)
      (hnone : g.refund = none) (hamount : 0 ≤ g.amount) :
    Reached rate cap E ({ g with refund := some (reading, time) } :: grants)
      (some (min cap (available rate cap account reading + g.amount), reading)) time

namespace Reached

variable {rate cap : K} {E : K → K → Prop} {grants : List (Grant K)} {account : Option (K × K)}
  {last tokens reading : K}

omit [IsStrictOrderedRing K] in
lemma available_le_cap (rate cap : K) (account : Option (K × K)) (reading : K) :
    available rate cap account reading ≤ cap := by
  cases account with
  | none => exact le_rfl
  | some x => exact min_le_left _ _

omit [IsStrictOrderedRing K] in
lemma eq_nil (h : Reached rate cap E grants none last) : grants = [] := by
  cases h
  rfl

lemma available_nonneg (hra : 0 ≤ rate) (hc : 0 ≤ cap) (hac : ∀ x ∈ account, 0 ≤ x.1)
    (reading : K) : 0 ≤ available rate cap account reading := by
  cases account with
  | none => exact hc
  | some x =>
    have hr : 0 ≤ max 0 (reading - x.2) * rate := mul_nonneg (le_max_left _ _) hra
    exact le_min hc (add_nonneg (hac x rfl) hr)

lemma tokens_nonneg (hr : 0 ≤ rate) (hc : 0 ≤ cap)
    (h : Reached rate cap E grants account last) : ∀ x ∈ account, 0 ≤ x.1 := by
  induction h with
  | fresh => simp
  | grant _ _ _ _ hamount =>
    rintro _ ⟨⟩
    exact sub_nonneg.2 hamount
  | refund _ _ _ _ _ hamount ih =>
    rintro _ ⟨⟩
    exact le_min hc (add_nonneg (available_nonneg hr hc ih _) hamount)

variable (h : Reached rate cap E grants account last)
include h

omit [IsStrictOrderedRing K] in
lemma le_last : ∀ x ∈ account, ∀ g ∈ grants, (g.reading ≤ x.2 ∧ g.time ≤ last) ∧
      ∀ r ∈ g.refund, r.1 ≤ x.2 ∧ r.2 ≤ last := by
  induction h with
  | fresh => simp
  | @grant grants account last reading time amount h _ htime hreading _ ih =>
    rintro _ ⟨⟩ g hg
    obtain rfl | hg := mem_cons.1 hg
    · exact ⟨⟨le_rfl, le_rfl⟩, by simp⟩
    cases account with
    | none => simp [h.eq_nil] at hg
    | some x =>
      have hx := hreading x rfl
      obtain ⟨⟨hr, ht⟩, he⟩ := ih x rfl g hg
      exact ⟨⟨hr.trans hx, ht.trans htime⟩, fun r hmem =>
        ⟨(he r hmem).1.trans hx, (he r hmem).2.trans htime⟩⟩
  | @refund g' grants account last reading time h _ htime hreading hnone _ ih =>
    rintro _ ⟨⟩ g hg
    cases account with
    | none => cases h.eq_nil
    | some x =>
      have hx := hreading x rfl
      obtain rfl | hg := mem_cons.1 hg
      · obtain ⟨⟨hr, ht⟩, -⟩ := ih x rfl g' mem_cons_self
        refine ⟨⟨hr.trans hx, ht.trans htime⟩, ?_⟩
        rintro _ ⟨⟩
        exact ⟨le_rfl, le_rfl⟩
      obtain ⟨⟨hr, ht⟩, he⟩ := ih x rfl g (mem_cons_of_mem _ hg)
      exact ⟨⟨hr.trans hx, ht.trans htime⟩, fun r hmem =>
        ⟨(he r hmem).1.trans hx, (he r hmem).2.trans htime⟩⟩

omit [IsStrictOrderedRing K] in
lemma sorted : grants.Pairwise fun g g' => g'.reading ≤ g.reading ∧ g'.time ≤ g.time := by
  induction h with
  | fresh => exact .nil
  | @grant grants account last reading time amount h _ htime hreading _ ih =>
    refine pairwise_cons.2 ⟨fun g hg => ?_, ih⟩
    cases account with
    | none => simp [h.eq_nil] at hg
    | some x =>
      obtain ⟨hr, ht⟩ := (h.le_last x rfl g hg).1
      exact ⟨hr.trans (hreading x rfl), ht.trans htime⟩
  | refund _ _ _ _ _ _ ih => exact pairwise_cons.2 (pairwise_cons.1 ih)

omit h

/-! ### Windows without an end -/

section Window

variable {W : K → K → Prop} [∀ r t, Decidable (W r t)] {c : K}

omit [IsStrictOrderedRing K] in
lemma outstanding_eq_zero_of_last (hu : ∀ r t r' t', W r t → r ≤ r' → t ≤ t' → W r' t')
    (h : Reached rate cap E grants (some (tokens, reading)) last) (hl : ¬ W reading last) :
    outstanding W grants = 0 := by
  refine outstanding_eq_zero fun g hg hw => hl ?_
  obtain ⟨hr, ht⟩ := (h.le_last _ rfl g hg).1
  exact hu _ _ _ _ hw hr ht

lemma available_le (rate cap tokens : K) (hreading : last ≤ reading) :
    available rate cap (some (tokens, last)) reading ≤ tokens + (reading - last) * rate := by
  have hm : max 0 (reading - last) = reading - last := max_eq_right (sub_nonneg.2 hreading)
  rw [available, hm]
  exact min_le_right _ _

/-- What is outstanding in a window and what is left together are the capacity and what has been
refilled since the window began. -/
theorem outstanding_add_tokens_le (hra : 0 ≤ rate)
    (hu : ∀ r t r' t', W r t → r ≤ r' → t ≤ t' → W r' t')
    (hb : ∀ r t, E r t → W r t → c ≤ r) (h : Reached rate cap E grants account last) :
    ∀ x ∈ account, W x.2 last → outstanding W grants + x.1 ≤ cap + (x.2 - c) * rate := by
  induction h with
  | fresh => simp
  | @grant grants account last reading time amo h hevent htime hreading hamount ih =>
    rintro _ ⟨⟩ hw
    have hc : (⟨amo, reading, time, none⟩ : Grant K).Counts W := ⟨hw, by simp⟩
    have hre : 0 ≤ (reading - c) * rate :=
      mul_nonneg (sub_nonneg.2 (hb _ _ hevent hw)) hra
    have hca := available_le_cap rate cap account reading
    rw [outstanding_cons_of_counts hc]
    dsimp only
    cases account with
    | none =>
      rw [h.eq_nil, outstanding_nil]
      linarith
    | some x =>
      by_cases he : W x.2 last
      · have hi := ih x rfl he
        have hle := available_le rate cap x.1 (hreading x rfl)
        linarith
      rw [h.outstanding_eq_zero_of_last hu he]
      linarith
  | @refund g grants account last reading time h hevent htime hreading hnone hamount ih =>
    rintro _ ⟨⟩ hw
    have hc : ¬ ({ g with refund := some (reading, time) } : Grant K).Counts W :=
      fun hc => hc.2 _ rfl hw
    have hre : 0 ≤ (reading - c) * rate :=
      mul_nonneg (sub_nonneg.2 (hb _ _ hevent hw)) hra
    rw [outstanding_cons_of_not_counts hc]
    dsimp only
    by_cases hg : W g.reading g.time
    · -- the grant falls into the window, and its refund takes it out again
      cases account with
      | none => cases h.eq_nil
      | some x =>
        obtain ⟨hr, ht⟩ := (h.le_last x rfl g mem_cons_self).1
        have hi := ih x rfl (hu _ _ _ _ hg hr ht)
        rw [outstanding_cons_of_counts ⟨hg, by simp [hnone]⟩] at hi
        have hle := available_le rate cap x.1 (hreading x rfl)
        have hm := min_le_right cap (available rate cap (some x) reading + g.amount)
        linarith
    -- it was made before the window, and so was every other
    have hz : outstanding W grants = 0 := by
      refine outstanding_eq_zero fun g' hg' hw' => hg ?_
      obtain ⟨hr, ht⟩ := (pairwise_cons.1 h.sorted).1 g' hg'
      exact hu _ _ _ _ hw' hr ht
    have hm := min_le_left cap (available rate cap account reading + g.amount)
    rw [hz]
    linarith

end Window

/-! ### Intervals -/

section Interval

variable (τ : K → K → K) {a b c : K}

omit [IsStrictOrderedRing K] in
lemma outstanding_interval_eq (hm : ∀ r t r' t', r ≤ r' → t ≤ t' → τ r t ≤ τ r' t')
    (h : Reached rate cap E grants (some (tokens, reading)) last) (hl : τ reading last ≤ b) :
    outstanding (fun r t => a ≤ τ r t ∧ τ r t ≤ b) grants =
      outstanding (fun r t => a ≤ τ r t) grants := by
  have he : ∀ r t, r ≤ reading → t ≤ last → τ r t ≤ b := fun r t hr ht =>
    (hm _ _ _ _ hr ht).trans hl
  refine outstanding_congr fun g hg => ?_
  obtain ⟨⟨hr, ht⟩, hre⟩ := h.le_last _ rfl g hg
  refine and_congr (and_iff_left (he _ _ hr ht)) (forall₂_congr fun x hx => not_congr ?_)
  exact and_iff_left (he _ _ (hre x hx).1 (hre x hx).2)

lemma outstanding_interval_le_of_last (hra : 0 ≤ rate) (hc : 0 ≤ cap)
    (hm : ∀ r t r' t', r ≤ r' → t ≤ t' → τ r t ≤ τ r' t')
    (hb : ∀ r t, E r t → a ≤ τ r t → c ≤ r) (he : ∀ r t, E r t → τ r t ≤ b → r ≤ b)
    (hcb : c ≤ b) (h : Reached rate cap E grants (some (tokens, reading)) last)
    (hevent : E reading last) (hl : τ reading last ≤ b) :
    outstanding (fun r t => a ≤ τ r t ∧ τ r t ≤ b) grants ≤ cap + (b - c) * rate := by
  have hu : ∀ r t r' t', a ≤ τ r t → r ≤ r' → t ≤ t' → a ≤ τ r' t' := fun _ _ _ _ ha hr ht =>
    ha.trans (hm _ _ _ _ hr ht)
  rw [h.outstanding_interval_eq τ hm hl]
  by_cases hst : a ≤ τ reading last
  · have hle := h.outstanding_add_tokens_le hra hu hb _ rfl hst
    have ho := h.tokens_nonneg hra hc _ rfl
    have hre : (reading - c) * rate ≤ (b - c) * rate :=
      mul_le_mul_of_nonneg_right (sub_le_sub_right (he _ _ hevent hl) c) hra
    dsimp only at hle ho
    linarith
  rw [h.outstanding_eq_zero_of_last hu hst]
  exact add_nonneg hc (mul_nonneg (sub_nonneg.2 hcb) hra)

/-- The tokens granted and not given back in an interval are at most the capacity and what refills
in it, where the interval is measured by `τ` and begins no earlier than `c` by the readings. -/
theorem outstanding_interval_le (hr : 0 ≤ rate) (hc : 0 ≤ cap)
    (hm : ∀ r t r' t', r ≤ r' → t ≤ t' → τ r t ≤ τ r' t')
    (hb : ∀ r t, E r t → a ≤ τ r t → c ≤ r) (he : ∀ r t, E r t → τ r t ≤ b → r ≤ b)
    (hcb : c ≤ b) (h : Reached rate cap E grants account last) :
    outstanding (fun r t => a ≤ τ r t ∧ τ r t ≤ b) grants ≤ cap + (b - c) * rate := by
  induction h with
  | fresh => exact add_nonneg hc (mul_nonneg (sub_nonneg.2 hcb) hr)
  | @grant grants account last reading time amount h hevent htime hreading hamount ih =>
    by_cases hl : τ reading time ≤ b
    · exact (Reached.grant h hevent htime hreading hamount).outstanding_interval_le_of_last τ
        hr hc hm hb he hcb hevent hl
    rw [outstanding_cons_of_not_counts fun hcn => hl hcn.1.2]
    exact ih
  | @refund g grants account last reading time h hevent htime hreading hnone hamount ih =>
    by_cases hl : τ reading time ≤ b
    · exact (Reached.refund h hevent htime hreading hnone hamount).outstanding_interval_le_of_last
        τ hr hc hm hb he hcb hevent hl
    -- a refund after the interval does not change what was outstanding in it
    have hcn : ({ g with refund := some (reading, time) } : Grant K).Counts
        (fun r t => a ≤ τ r t ∧ τ r t ≤ b) ↔ g.Counts fun r t => a ≤ τ r t ∧ τ r t ≤ b := by
      simp [Grant.Counts, hnone, not_le.1 hl]
    rw [outstanding_cons_congr hcn rfl]
    exact ih

end Interval

end Reached

end TokenAccount
