import ThreeTears.Coordination.TokenBucket
import ThreeTears.Lib.Lists

/-!
# The rate of the token bucket

When no swap is computed with a reading before the entry's own, the entry is an account that
refills, and the grants are those of the account.
-/

namespace ThreeTears

open Function List TokenPc Option TokenRun

open TokenAccount

variable {ι : Type*}

namespace TokenPc

def op : TokenPc → Option TokenOp
  | .idle => none
  | .waiting op | .timed op _ | .swapping op _ _ _ => some op

def reading : TokenPc → Option Rat
  | .timed _ now | .swapping _ now _ _ => some now
  | _ => none

/-- What the call is about to swap: for what, with which reading, and over which revision. -/
def swaps : TokenPc → Option (TokenOp × Rat × Option Nat)
  | .swapping op now revision _ => some (op, now, revision)
  | _ => none

end TokenPc

def TokenOp.Latest (grants : List (Grant Rat)) : TokenOp → Prop
  | .claim _ => True
  | .refund grant _ => grant + 1 = grants.length

instance (grants) (op : TokenOp) : Decidable (op.Latest grants) := by
  unfold TokenOp.Latest
  split <;> infer_instance

def Timely (delay reading time : Rat) : Prop := reading ≤ time ∧ time ≤ reading + delay

def BucketState.account (state : BucketState) : Rat × Rat := (state.tokens, state.lastRefill)

namespace TokenRun

/-- A swap that is taken was computed with a reading not before the entry's and not older than the
delay, and a refund gives back the latest grant. -/
def Orderly (delay : Rat) (s : TokenRun ι) : TokenAct ι → Prop
  | .swap i => ∀ x ∈ (s.calls i).swaps, s.kv.Fresh x.2.2 →
      (∀ state ∈ s.kv.value, state.lastRefill ≤ x.2.1) ∧ s.now ≤ x.2.1 + delay ∧
        x.1.Latest s.grants
  | _ => True

instance (delay : Rat) (s : TokenRun ι) (a : TokenAct ι) : Decidable (Orderly delay s a) := by
  unfold Orderly
  split <;> infer_instance

variable {bucket : TokenBucket} {delay : Rat} {s s' : TokenRun ι} {a : TokenAct ι} {i : ι}
  {pc : TokenPc}

def OpSound (s : TokenRun ι) : TokenOp → Prop
  | .claim _ => True
  | .refund grant tokens => grant ∈ s.refunding ∧
      ∃ g, s.grants[grant]? = some g ∧ g.amount = tokens ∧ 0 < tokens ∧ g.refund = none

structure CallSound (bucket : TokenBucket) (s : TokenRun ι) (pc : TokenPc) : Prop where
  reading : ∀ now ∈ pc.reading, now ≤ s.now
  op : ∀ op ∈ pc.op, s.OpSound op
  swap : ∀ op now revision new, pc = .swapping op now revision new →
    (∀ r ∈ revision, r ≤ s.kv.sequence) ∧
      (s.kv.Fresh revision → bucket.attempt now s.kv.value op = some new)

def Apart (pc pc' : TokenPc) : Prop :=
  ∀ grant tokens tokens', pc.op = some (.refund grant tokens) →
    pc'.op ≠ some (.refund grant tokens')

structure Accounted (bucket : TokenBucket) (delay : Rat) (s : TokenRun ι) : Prop where
  account : ∃ last ≤ s.now, Reached bucket.refillRate bucket.capacity (Timely delay)
    s.grants.reverse (s.kv.value.map BucketState.account) last
  calls : ∀ i, s.CallSound bucket (s.calls i)
  apart : ∀ i j, i ≠ j → Apart (s.calls i) (s.calls j)
  refunded : ∀ grant g, s.grants[grant]? = some g → g.refund.isSome → grant ∈ s.refunding

lemma CallSound.of_op (hreading : pc.reading = none) (hop : ∀ op ∈ pc.op, s.OpSound op)
    (hw : pc.swaps = none) : s.CallSound bucket pc where
  reading := by simp [hreading]
  op := hop
  swap op now rev new he := by simp [he, swaps] at hw

lemma CallSound.idle : s.CallSound bucket .idle := .of_op rfl (by simp [TokenPc.op]) rfl

lemma currentTokens_eq (now : Rat) (entry : Option BucketState) : bucket.currentTokens now entry =
      available bucket.refillRate bucket.capacity (entry.map BucketState.account) now := by
  cases entry <;> rfl

section Steps

variable [DecidableEq ι]

lemma Accounted.goto (h : s.Accounted bucket delay) (hpc : s.CallSound bucket pc)
    (hap : ∀ j, j ≠ i → Apart pc (s.calls j) ∧ Apart (s.calls j) pc) :
    (s.goto i pc).Accounted bucket delay where
  __ := h
  calls := by
    refine forall_update (I := fun _ => (s.goto i pc).CallSound bucket) (fun j => ?_) ?_
    · exact ⟨(h.calls j).reading, (h.calls j).op, (h.calls j).swap⟩
    · exact { hpc with }
  apart j k he := by
    simp only [TokenRun.goto]
    obtain rfl | hj := eq_or_ne j i
    · rw [update_self, update_of_ne he.symm]
      exact (hap k he.symm).1
    obtain rfl | hk := eq_or_ne k i
    · rw [update_self, update_of_ne hj]
      exact (hap j he).2
    rw [update_of_ne hj, update_of_ne hk]
    exact h.apart j k he

lemma Accounted.goto_of_op (h : s.Accounted bucket delay) (hpc : s.CallSound bucket pc)
    (hop : pc.op = (s.calls i).op ∨ pc.op = none) : (s.goto i pc).Accounted bucket delay := by
  refine h.goto hpc fun j hj =>
    ⟨fun grant token token' hr => ?_, fun grant token token' hr hr' => ?_⟩
  · obtain he | hnone := hop
    · exact h.apart i j hj.symm grant token token' (he ▸ hr)
    · simp [hnone] at hr
  obtain he | hnone := hop
  · exact h.apart j i hj grant token token' hr (he ▸ hr')
  · simp [hnone] at hr'

end Steps

/-! ### Swaps that are taken -/

section Swap

variable {op : TokenOp} {now : Rat} {rev : Option Nat} {new : BucketState}

variable (h : s.Accounted bucket delay)
include h

lemma Accounted.account_of_swap (hop : s.OpSound op)
    (ht : bucket.attempt now s.kv.value op = some new) (ho : now ≤ s.now)
    (hd : s.now ≤ now + delay) (hla : ∀ state ∈ s.kv.value, state.lastRefill ≤ now)
    (hl : op.Latest s.grants) :
    Reached bucket.refillRate bucket.capacity (Timely delay) (s.moved now op).reverse
      (some new.account) s.now := by
  obtain ⟨last, hle, hr⟩ := h.account
  have hreading : ∀ x ∈ s.kv.value.map BucketState.account, x.2 ≤ now := by
    intro x hx
    obtain ⟨state, hst, rfl⟩ := mem_map.1 hx
    exact hla state hst
  cases op with
  | claim =>
    simp only [TokenBucket.attempt] at ht
    split_ifs at ht with hlt
    cases ht
    rw [currentTokens_eq] at hlt
    simp only [moved, reverse_append, reverse_singleton, singleton_append,
      BucketState.account, currentTokens_eq]
    exact .grant hr ⟨ho, hd⟩ hle hreading (not_lt.1 hlt)
  | refund grant =>
    obtain ⟨-, g, hgr, rfl, hpos, hnone⟩ := hop
    cases hva : s.kv.value with
    | none => simp [hva, TokenBucket.attempt] at ht
    | some =>
      simp only [hva, TokenBucket.attempt] at ht
      cases ht
      obtain ⟨l, x, hg⟩ : ∃ l x, s.grants = l ++ [x] := by
        obtain hi | ⟨l, x, hc⟩ := eq_nil_or_concat s.grants
        · simp [hi] at hgr
        · exact ⟨l, x, by simpa using hc⟩
      have hln : grant = l.length := by
        have hl : grant + 1 = s.grants.length := hl
        simpa [hg] using hl
      subst hln
      obtain rfl : x = g := by simpa [hg] using hgr
      rw [hg, reverse_append, reverse_singleton, singleton_append, hva]
        at hr
      simp only [moved, hg, modify_length_concat, reverse_append, reverse_singleton,
        singleton_append, BucketState.account, currentTokens_eq]
      rw [hva] at hreading
      exact .refund hr ⟨ho, hd⟩ hle hreading hnone (le_of_lt hpos)

omit h in
lemma opSound_of_moved {op' : TokenOp} (ho' : s.OpSound op')
    (he : ∀ grant token token', op = .refund grant token → op' ≠ .refund grant token') :
    OpSound { s with kv := s.kv.push (some new), grants := s.moved now op } op' := by
  cases op' with
  | claim => trivial
  | refund grant =>
    obtain ⟨hmem, g, hg, hamount, hpos, hnone⟩ := ho'
    refine ⟨hmem, g, ?_, hamount, hpos, hnone⟩
    cases op with
    | claim =>
      have hlt : grant < s.grants.length := (List.getElem?_eq_some_iff.1 hg).1
      simpa [moved, List.getElem?_append_left hlt] using hg
    | refund grant' =>
      have hg' : grant' ≠ grant := by
        rintro rfl
        exact he _ _ _ rfl rfl
      simpa [moved, List.getElem?_modify_ne _ _ hg'] using hg

lemma Accounted.refunded_of_swap (hop : s.OpSound op) (k : Nat)
    (g : Grant Rat) (hg : (s.moved now op)[k]? = some g) (hr : g.refund.isSome) :
    k ∈ s.refunding := by
  cases op with simp only [moved] at hg
  | claim =>
    obtain hlt | he := lt_or_ge k s.grants.length
    · rw [List.getElem?_append_left hlt] at hg
      exact h.refunded k g hg hr
    rw [List.getElem?_append_right he, List.getElem?_singleton] at hg
    split_ifs at hg
    cases hg
    cases hr
  | refund grant =>
    obtain rfl | hne := eq_or_ne grant k
    · exact hop.1
    rw [List.getElem?_modify_ne _ _ hne] at hg
    exact h.refunded k g hg hr

lemma Accounted.swap [DecidableEq ι]
    (hpc : s.calls i = .swapping op now rev new) (hfr : s.kv.Fresh rev)
    (ho : Orderly delay s (.swap i)) : ({ s with
      kv := s.kv.push (some new)
      grants := s.moved now op }.goto i .idle).Accounted bucket delay := by
  obtain ⟨hl, hd, hla⟩ := ho (op, now, rev) (by simp [hpc, TokenPc.swaps])
    hfr
  have hsn := h.calls i
  have hop : s.OpSound op := hsn.op op (by simp [hpc, TokenPc.op])
  have hno : now ≤ s.now := hsn.reading now (by simp [hpc, TokenPc.reading])
  have ht := (hsn.swap op now rev new hpc).2 hfr
  have hidle : (s.goto i .idle).Accounted bucket delay := h.goto_of_op .idle (.inr rfl)
  refine ⟨⟨s.now, le_rfl, h.account_of_swap hop ht hno hd hl hla⟩,
    fun j => ⟨(hidle.calls j).reading, fun op' ho' => ?_, fun op' now' rev' new' hp' => ?_⟩,
    hidle.apart, h.refunded_of_swap hop⟩
  · refine opSound_of_moved ((hidle.calls j).op op' ho') fun grant token token' he he' => ?_
    obtain rfl | hj := eq_or_ne j i
    · simp [TokenRun.goto, TokenPc.op] at ho'
    simp only [TokenRun.goto, update_of_ne hj] at ho'
    exact h.apart i j hj.symm grant token token' (by simp [hpc, TokenPc.op, he])
      (by rw [mem_def.1 ho', he'])
  have hle := ((hidle.calls j).swap op' now' rev' new' hp').1
  exact ⟨fun r hr => Nat.le_succ_of_le (hle r hr), fun hf' => absurd hf' (KvKey.not_fresh_push hle)⟩

end Swap

section Runs

variable [DecidableEq ι]

lemma Accounted.refund (h : s.Accounted bucket delay) {grant : Nat} {g : Grant Rat}
    (hg : s.grants[grant]? = some g) (hpos : 0 < g.amount) (hno : grant ∉ s.refunding) :
    ({ s with refunding := grant :: s.refunding }.goto i
      (.waiting (.refund grant g.amount))).Accounted bucket delay := by
  have hc : Accounted bucket delay { s with refunding := grant :: s.refunding } := by
    refine ⟨h.account, fun j => ⟨(h.calls j).reading, fun op hop => ?_, (h.calls j).swap⟩, h.apart,
      fun k g' hk hr => mem_cons_of_mem _ (h.refunded k g' hk hr)⟩
    have hsn := (h.calls j).op op hop
    cases op with
    | claim => trivial
    | refund => exact ⟨mem_cons_of_mem _ hsn.1, hsn.2⟩
  have hnone : g.refund = none := by
    by_contra hsome
    exact hno (h.refunded grant g hg (isSome_iff_ne_none.2 hsome))
  have ho : ∀ j token, (s.calls j).op ≠ some (.refund grant token) := fun j token hop =>
    hno ((h.calls j).op _ hop).1
  refine hc.goto (.of_op rfl ?_ rfl) fun j _ => ⟨fun k _ token he => ?_, fun k token _ hop he => ?_⟩
  · rintro _ ⟨⟩
    exact ⟨mem_cons_self, g, hg, rfl, hpos, hnone⟩
  · cases he
    exact ho j token
  cases he
  exact ho j token hop

theorem Accounted.step (h : s.Accounted bucket delay) (ho : Orderly delay s a)
    (ht : step bucket s a = some s') : s'.Accounted bucket delay := by
  cases a with (simp only [step] at ht; try cases ht)
  | tick time =>
    split_ifs at ht with htime
    cases ht
    have hle : s.now ≤ s.now + time := le_add_of_nonneg_right htime
    obtain ⟨last, hl, he⟩ := h.account
    exact ⟨⟨last, hl.trans hle, he⟩, fun j => ⟨fun now hno =>
      ((h.calls j).reading now hno).trans hle, (h.calls j).op, (h.calls j).swap⟩, h.apart,
      h.refunded⟩
  | otherKey =>
    refine ⟨h.account, fun j => ⟨(h.calls j).reading, (h.calls j).op,
      fun op now rev new hpc => ?_⟩, h.apart, h.refunded⟩
    obtain ⟨hle, hat⟩ := (h.calls j).swap op now rev new hpc
    refine ⟨fun r hr => Nat.le_succ_of_le (hle r hr), fun hfr => hat ?_⟩
    cases rev <;> exact hfr
  | claim =>
    split at ht
    next =>
      split_ifs at ht
      cases ht
      refine h.goto (.of_op rfl ?_ rfl) fun j _ => ⟨?_, ?_⟩
      · rintro _ ⟨⟩
        trivial
      · rintro _ _ _ ⟨⟩
      · rintro _ _ _ - ⟨⟩
    next => cases ht
  | refund =>
    split at ht
    next hg =>
      split_ifs at ht with h
      cases ht
      obtain ⟨hpos, hnt⟩ := h
      exact h.refund hg hpos hnt
    next => cases ht
  | readClock i =>
    split at ht <;> cases ht
    next op hpc =>
      refine h.goto_of_op ⟨?_, ?_, by simp⟩ (.inl (by simp [hpc, TokenPc.op]))
      · rintro _ ⟨⟩
        exact le_rfl
      rintro _ ⟨⟩
      exact (h.calls i).op op (by simp [hpc, TokenPc.op])
  | getEntry i =>
    split at ht
    next op now hpc =>
      have hop : s.OpSound op := (h.calls i).op op (by simp [hpc, TokenPc.op])
      have hno : now ≤ s.now := (h.calls i).reading now (by simp [hpc, TokenPc.reading])
      split at ht <;> cases ht
      next hat =>
        refine h.goto_of_op ⟨?_, ?_, ?_⟩ (.inl (by simp [hpc, TokenPc.op]))
        · rintro _ ⟨⟩
          exact hno
        · rintro _ ⟨⟩
          exact hop
        rintro _ _ _ _ ⟨⟩
        refine ⟨fun r hr => ?_, fun _ => hat⟩
        simp only [KvKey.getEntry, Option.map_map, Option.mem_map, Function.comp] at hr
        obtain ⟨_, -, rfl⟩ := hr
        exact s.kv.revision_le
      next =>
        cases op with
        | claim =>
          refine h.goto_of_op (.of_op rfl ?_ rfl) (.inl (by simp [hpc, TokenPc.op,
            TokenOp.refused]))
          rintro _ ⟨⟩
          trivial
        | refund => exact h.goto_of_op .idle (.inr rfl)
    next => cases ht
  | swap i =>
    split at ht
    next op _ _ _ hpc =>
      split at ht <;> cases ht
      next hw =>
        obtain ⟨hfr, rfl⟩ := KvKey.swap_eq_some_iff.1 hw
        exact h.swap hpc hfr ho
      next =>
        refine h.goto_of_op (.of_op rfl ?_ rfl) (.inl (by simp [hpc, TokenPc.op]))
        rintro _ ⟨⟩
        exact (h.calls i).op op (by simp [hpc, TokenPc.op])
    next => cases ht
  | leave => exact h.goto_of_op .idle (.inr rfl)

omit [DecidableEq ι] in
lemma Accounted.start (now : Rat) : (start now : TokenRun ι).Accounted bucket delay where
  account := ⟨now, le_rfl, .fresh now⟩
  calls _ := .idle
  apart _ _ _ _ _ _ he := by simp [TokenRun.start, op] at he
  refunded grant g hg := by simp [TokenRun.start] at hg

/-- In every interval the tokens granted and not refunded are at most the capacity and what refills
in it, measured by the readings the grants were computed with; by the times of the swaps, it begins
a delay earlier. -/
theorem granted_le {now : Rat} {as : List (TokenAct ι)} {a b : Rat} (hab : a ≤ b)
    (hdelay : 0 ≤ delay)
    (hrun : ((system bucket).guard (Orderly delay)).run (start now) as = some s) :
    outstanding (fun reading _ => a ≤ reading ∧ reading ≤ b) s.grants ≤
        bucket.capacity + bucket.refillRate * (b - a) ∧
      outstanding (fun _ time => a ≤ time ∧ time ≤ b) s.grants ≤
        bucket.capacity + bucket.refillRate * (b - a + delay) := by
  have he : ∀ (W : Rat → Rat → Prop) [∀ r t, Decidable (W r t)],
      outstanding W s.grants.reverse = outstanding W s.grants := fun W _ => by
    simp [outstanding, map_reverse, sum_reverse]
  have hac : s.Accounted bucket delay := by
    refine StepSystem.run_guard_invariant _ (fun s a s' h ho hst => ?_)
      (Accounted.start now) hrun
    exact h.step ho hst
  obtain ⟨last, -, hra⟩ := hac.account
  have hrt := le_of_lt bucket.refillRate_pos
  have hc := le_of_lt bucket.capacity_pos
  constructor
  · have hle : outstanding (fun reading _ => a ≤ reading ∧ reading ≤ b) s.grants.reverse ≤
        bucket.capacity + (b - a) * bucket.refillRate :=
      hra.outstanding_interval_le (fun reading _ => reading) hrt hc
        (fun _ _ _ _ hr _ => hr) (fun _ _ _ hle => hle) (fun _ _ _ hle => hle) hab
    rw [he] at hle
    linarith
  have hle : outstanding (fun _ time => a ≤ time ∧ time ≤ b) s.grants.reverse ≤
      bucket.capacity + (b - (a - delay)) * bucket.refillRate :=
    hra.outstanding_interval_le (fun _ time => time) hrt hc
      (fun _ _ _ _ _ ht => ht) (fun r t hi hle => by linarith [hi.2])
      (fun r t hi hle => hi.1.trans hle) (by linarith)
  rw [he] at hle
  linarith

end Runs

/-! ### Runs of three calls -/

def perSecond : TokenBucket where
  refillRate := 1
  capacity := 10
  refillRate_pos := by decide
  capacity_pos := by decide

def attempts (i : Fin 3) : List (TokenAct (Fin 3)) := [.readClock i, .getEntry i, .swap i]

/-- The first call reads its clock ten seconds before it reads the entry, which has been used in
between. -/
def clockSetBack : List (TokenAct (Fin 3)) :=
  [.claim 0 1, .readClock 0, .tick 10, .claim 1 9] ++ attempts 1 ++ [.getEntry 0, .swap 0] ++
    [.claim 2 10] ++ attempts 2

def refundedOnce : List (TokenAct (Fin 3)) :=
  [.claim 0 10] ++ attempts 0 ++ [.refund 0 0] ++ attempts 0 ++ [.claim 1 10] ++ attempts 1 ++
    [.tick 5, .claim 2 5] ++ attempts 2

/-- Twenty tokens are granted at once, nineteen of them by the readings. -/
theorem granted_gt_clockSetBack : ∃ s, (system perSecond).run (start 0) clockSetBack = some s ∧
      ¬ outstanding (fun _ time => 10 ≤ time ∧ time ≤ 10) s.grants ≤
        perSecond.capacity + perSecond.refillRate * (10 - 10) ∧
      ¬ outstanding (fun reading _ => 10 ≤ reading ∧ reading ≤ 10) s.grants ≤
        perSecond.capacity + perSecond.refillRate * (10 - 10) :=
  StepSystem.exists_run_of_any _ (by decide +kernel)

theorem granted_le_refundedOnce :
    ∃ s, ((system perSecond).guard (Orderly 0)).run (start 0) refundedOnce = some s ∧
      outstanding (fun _ time => 0 ≤ time ∧ time ≤ 5) s.grants = 15 ∧
      outstanding (fun _ time => 0 ≤ time ∧ time ≤ 5) s.grants ≤
        perSecond.capacity + perSecond.refillRate * (5 - 0 + 0) := by
  exact StepSystem.exists_run_and _ (by decide +kernel) fun s hr _ =>
    (granted_le (by decide) (le_refl 0) hr).2

end TokenRun

end ThreeTears
