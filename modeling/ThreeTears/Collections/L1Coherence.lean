import ThreeTears.Collections.L2Coherence
import ThreeTears.Collections.FenceInvariant

/-!
# L1 coherence

A process's L1 copy may be older than L3's row only while something is on its way that will drop or
replace it: a broadcast, its handling, or the process's own write or withdrawal of the key. The same
is said of a row that is about to be cached under a ticket that is still the newest.

There is one gap. A delete or an invalidation takes no ticket: it evicts the L1 copy, then deletes
the L2 entry, and its own process skips its broadcast. A read in between finds the withdrawn row in
L2 and caches it.
-/

namespace ThreeTears

open Function Op WithdrawPc

variable {P Row ι : Type*}

@[simp] def SavePc.beforeL1 : SavePc Row → Bool
  | .unreadEvicted _ => false
  | .cached _ => false
  | .failed _ => false
  | .announcing => false
  | _ => true

@[simp] def SavePc.toAnnounce : SavePc Row → Bool
  | .staged => false
  | .begun _ _ => false
  | .before _ _ _ => false
  | .failed _ => false
  | _ => true

@[simp] def WithdrawPc.beforeL1 : WithdrawPc → Bool
  | .changed => true
  | .fenced => true
  | _ => false

@[simp] def WithdrawPc.toAnnounce : WithdrawPc → Bool
  | .begun => false
  | _ => true

namespace Op

def keeps : Op P Row → Option (P × KeyTicket × Row)
  | .read p t (.fetched row _) => some (p, t, row)
  | .read p t (.found row) => some (p, t, row)
  | .save p (.committed row t _) => some (p, t, row)
  | .save p (.stored row t _) => some (p, t, row)
  | .save p (.refused row t) => some (p, t, row)
  | .save p (.written row t _) => some (p, t, row)
  | _ => none

variable {op : Op P Row}

lemma ticket_of_keeps {p : P} {t : KeyTicket} {row : Row}
    (h : op.keeps = some (p, t, row)) : op.ticket = some (p, t) := by
  unfold keeps at h
  split at h
  all_goals simp_all [ticket, SavePc.ticket]

variable [DecidableEq P]

/-- The operation will still drop or replace the L1 copy of process `p`. -/
@[simp] def coversCopy (p : P) : Op P Row → Bool
  | .save q pc => if q = p then pc.beforeL1 else pc.toAnnounce
  | .withdraw q _ pc => if q = p then pc.beforeL1 else pc.toAnnounce
  | .peer q _ => decide (q = p)
  | _ => false

/-- The operation will still end the freshness of every ticket process `p` has out now. -/
@[simp] def coversReads (p : P) : Op P Row → Bool
  | .save q pc => if q = p then pc.beforeL1 else pc.toAnnounce
  | .withdraw q _ pc => if q = p then decide (pc = .changed) else pc.toAnnounce
  | .peer q _ => decide (q = p)
  | _ => false

/-- A withdrawal of process `p` that has moved the fence and not yet deleted the L2 entry. -/
def withdrawsAt (p : P) : Op P Row → Bool
  | .withdraw q _ pc => decide (q = p ∧ (pc = .fenced ∨ pc = .evicted))
  | _ => false

lemma coversCopy_of_coversReads {p : P} (h : op.coversReads p = true) : op.coversCopy p = true := by
  cases op with
  | withdraw q c pc => cases pc <;> simp_all
  | _ => exact h

/-- An operation that owes L2 its message covers the reads of process `p`, or is a save of `p` with
a ticket, or a withdrawal of `p` past its fence. -/
lemma covers_of_owesL2 (p : P) (h : op.owesL2 = true) :
    op.coversReads p = true ∨ (op.isSave = true ∧ op.holdsAt p) ∨ op.withdrawsAt p = true := by
  cases op with
  | save q pc =>
    by_cases hq : q = p
    · cases pc <;>
        simp_all [owesL2, isSave, holdsAt, ticket, SavePc.ticket]
    · cases pc <;> simp_all [owesL2]
  | withdraw q c pc =>
    by_cases hq : q = p
    · cases pc <;> simp_all [owesL2, withdrawsAt]
    · cases pc <;> simp_all [owesL2]
  | _ => simp [owesL2] at h

end Op

/-- Every L1 copy, and every row about to become one, is L3's row or will be dropped. -/
structure L1Inv [DecidableEq P] (l3 : Option Row) (l1 : P → Option Row) (fence : P → L1Fence)
    (mail : P → Nat) (ops : ι → Op P Row) : Prop where
  copy : ∀ p row, l1 p = some row →
    l3 = some row ∨ 0 < mail p ∨ ∃ j, (ops j).coversCopy p = true
  kept : ∀ i p t row, (ops i).keeps = some (p, t, row) →
    L1Fence.stillNewest (fence p) t = true →
    l3 = some row ∨ 0 < mail p ∨ ∃ j, j ≠ i ∧ (ops j).coversReads p = true

namespace L1Inv

variable [DecidableEq P] {l3 : Option Row} {l1 : P → Option Row} {fence : P → L1Fence}
  {mail : P → Nat} {ops : ι → Op P Row} {i : ι} {p : P} {t : KeyTicket} {row : Row} {op : Op P Row}
  (h : L1Inv l3 l1 fence mail ops)
include h

lemma refence {fence' : P → L1Fence}
    (hf : ∀ j q t, (ops j).ticket = some (q, t) → L1Fence.stillNewest (fence' q) t = true →
      L1Fence.stillNewest (fence q) t = true) : L1Inv l3 l1 fence' mail ops := by
  refine ⟨h.copy, ?_⟩
  intro j q t row hj hnew
  exact h.kept j q t row hj (hf j q t (ticket_of_keeps hj) hnew)

lemma dropCopy (p : P) : L1Inv l3 (update l1 p none) fence mail ops := by
  refine ⟨?_, h.kept⟩
  intro q row hq
  obtain ⟨-, ⟨⟩⟩ | ⟨-, hq⟩ := of_update_eq hq
  exact h.copy q row hq

lemma setCopy (row : Row) (hi : (ops i).coversCopy p = true) :
    L1Inv l3 (update l1 p (some row)) fence mail ops := by
  refine ⟨?_, h.kept⟩
  intro q row hq
  rcases eq_or_ne q p with rfl | hqp
  · exact .inr (.inr ⟨i, hi⟩)
  rw [update_of_ne hqp] at hq
  exact h.copy q row hq

variable [DecidableEq ι]

lemma setOp (hc : ∀ q, l1 q ≠ none → (ops i).coversCopy q = true → op.coversCopy q = true)
    (hr : ∀ q j t, (ops j).ticket = some (q, t) → L1Fence.stillNewest (fence q) t = true →
      (ops i).coversReads q = true → op.coversReads q = true)
    (he : ∀ q t row, op.keeps = some (q, t, row) → L1Fence.stillNewest (fence q) t = true →
      (ops i).keeps = some (q, t, row) ∨
        l3 = some row ∨ 0 < mail q ∨ ∃ j, j ≠ i ∧ (ops j).coversReads q = true) :
    L1Inv l3 l1 fence mail (update ops i op) := by
  constructor
  · intro q row hq
    rcases h.copy q row hq with h3 | hmail | ⟨j, hj⟩
    · exact .inl h3
    · exact .inr (.inl hmail)
    refine .inr (.inr ⟨j, ?_⟩)
    rcases eq_or_ne j i with rfl | hi
    · rw [update_self]
      exact hc q (by simp [hq]) hj
    · rwa [update_of_ne hi]
  intro j q t row hj hnew
  rcases eq_or_ne j i with rfl | hi
  · rw [update_self] at hj
    have hold : l3 = some row ∨ 0 < mail q ∨ ∃ k, k ≠ j ∧ (ops k).coversReads q = true := by
      rcases he q t row hj hnew with hk | hold
      · exact h.kept j q t row hk hnew
      · exact hold
    rcases hold with h3 | hmail | ⟨k, hkj, hk⟩
    · exact .inl h3
    · exact .inr (.inl hmail)
    · exact .inr (.inr ⟨k, hkj, by rwa [update_of_ne hkj]⟩)
  rw [update_of_ne hi] at hj
  rcases h.kept j q t row hj hnew with h3 | hmail | ⟨k, hkj, hk⟩
  · exact .inl h3
  · exact .inr (.inl hmail)
  refine .inr (.inr ⟨k, hkj, ?_⟩)
  rcases eq_or_ne k i with rfl | hki
  · rw [update_self]
    exact hr q j t (ticket_of_keeps hj) hnew hk
  · rwa [update_of_ne hki]

lemma evict (hf : FenceInv fence ops)
    (hc : ∀ q, q ≠ p → (ops i).coversCopy q = true → op.coversCopy q = true)
    (hr : ∀ q, q ≠ p → (ops i).coversReads q = true → op.coversReads q = true)
    (hk : op.keeps = none) :
    L1Inv l3 (update l1 p none) (update fence p (L1Fence.changed (fence p))) mail
      (update ops i op) := by
  refine ((h.refence fun j q t hj hnew => (hf.stillNewest_of_changed hj hnew).2).dropCopy p).setOp
    ?_ ?_ (by simp [hk])
  · intro q hq
    rcases eq_or_ne q p with rfl | hqp
    · simp at hq
    · exact hc q hqp
  intro q j t hj hnew
  exact hr q (hf.stillNewest_of_changed hj hnew).1

/-- An operation caches the row it keeps. Where it covered its own process as a save, the tickets it
covered are no longer the newest. -/
lemma keep (hf : FenceInv fence ops)
    (hi : (ops i).keeps = some (p, t, row)) (hnew : L1Fence.stillNewest (fence p) t = true)
    (hc : ∀ q, q ≠ p → (ops i).coversCopy q = true → op.coversCopy q = true)
    (hr : ∀ q, q ≠ p → (ops i).coversReads q = true → op.coversReads q = true)
    (hsa : (ops i).coversReads p = true → (ops i).isSave = true) (he : op.keeps = none) :
    L1Inv l3 (update l1 p (some row)) fence mail (update ops i op) := by
  constructor
  · intro q x hq
    obtain ⟨rfl, ⟨⟩⟩ | ⟨hqp, hq⟩ := of_update_eq hq
    · rcases h.kept i q t row hi hnew with h3 | hmail | ⟨j, hji, hj⟩
      · exact .inl h3
      · exact .inr (.inl hmail)
      refine .inr (.inr ⟨j, ?_⟩)
      rw [update_of_ne hji]
      exact coversCopy_of_coversReads hj
    rcases h.copy q x hq with h3 | hmail | ⟨j, hj⟩
    · exact .inl h3
    · exact .inr (.inl hmail)
    refine .inr (.inr ⟨j, ?_⟩)
    rcases eq_or_ne j i with rfl | hji
    · rw [update_self]
      exact hc q hqp hj
    · rwa [update_of_ne hji]
  intro j q t' x hj hn'
  rcases eq_or_ne j i with rfl | hji
  · simp [he] at hj
  rw [update_of_ne hji] at hj
  rcases h.kept j q t' x hj hn' with h3 | hmail | ⟨k, hkj, hk⟩
  · exact .inl h3
  · exact .inr (.inl hmail)
  refine .inr (.inr ⟨k, hkj, ?_⟩)
  rcases eq_or_ne k i with rfl | hki
  · rw [update_self]
    rcases eq_or_ne q p with rfl | hqp
    · have hw := hf.writesAt_of_save (hsa hk) (ticket_of_keeps hi)
      rw [hf.rivals j k q t' hji (ticket_of_keeps hj) hw] at hn'
      cases hn'
    · exact hr q hqp hk
  · rwa [update_of_ne hki]

omit h in
lemma of_commit (hcov : ∀ q, op.coversReads q = true)
    (hk : ∀ q t row, op.keeps = some (q, t, row) → l3 = some row) :
    L1Inv l3 l1 fence mail (update ops i op) := by
  constructor
  · intro q row _
    refine .inr (.inr ⟨i, ?_⟩)
    rw [update_self]
    exact coversCopy_of_coversReads (hcov q)
  intro j q t row hj _
  rcases eq_or_ne j i with rfl | hi
  · rw [update_self] at hj
    exact .inl (hk q t row hj)
  refine .inr (.inr ⟨i, hi.symm, ?_⟩)
  rw [update_self]
  exact hcov q

lemma publish (hc : (ops i).coversCopy p = false) (hr : (ops i).coversReads p = false) :
    L1Inv l3 l1 fence (fun q => if q = p then mail q else mail q + 1) (update ops i .idle) := by
  constructor
  · intro q row hq
    rcases eq_or_ne q p with rfl | hqp
    · rcases h.copy q row hq with h3 | hmail | ⟨j, hj⟩
      · exact .inl h3
      · exact .inr (.inl (by simpa using hmail))
      have hi : j ≠ i := by
        rintro rfl
        rw [hc] at hj
        cases hj
      exact .inr (.inr ⟨j, by rwa [update_of_ne hi]⟩)
    · exact .inr (.inl (by simp [hqp]))
  intro j q t row hj hnew
  rcases eq_or_ne q p with rfl | hqp
  · rcases eq_or_ne j i with rfl | hi
    · simp [keeps] at hj
    rw [update_of_ne hi] at hj
    rcases h.kept j q t row hj hnew with h3 | hmail | ⟨k, hkj, hk⟩
    · exact .inl h3
    · exact .inr (.inl (by simpa using hmail))
    have hki : k ≠ i := by
      rintro rfl
      rw [hr] at hk
      cases hk
    exact .inr (.inr ⟨k, hkj, by rwa [update_of_ne hki]⟩)
  · exact .inr (.inl (by simp [hqp]))

lemma deliver (hidle : ops i = .idle) : L1Inv l3 l1 fence (update mail p (mail p - 1))
      (update ops i (.peer p .handling)) := by
  constructor
  · intro q row hq
    rcases eq_or_ne q p with rfl | hqp
    · exact .inr (.inr ⟨i, by simp⟩)
    rcases h.copy q row hq with h3 | hmail | ⟨j, hj⟩
    · exact .inl h3
    · exact .inr (.inl (by rwa [update_of_ne hqp]))
    have hi : j ≠ i := by
      rintro rfl
      simp [hidle] at hj
    exact .inr (.inr ⟨j, by rwa [update_of_ne hi]⟩)
  intro j q t row hj hnew
  have hi : j ≠ i := by
    rintro rfl
    simp [keeps] at hj
  rw [update_of_ne hi] at hj
  rcases eq_or_ne q p with rfl | hqp
  · exact .inr (.inr ⟨i, hi.symm, by simp⟩)
  rcases h.kept j q t row hj hnew with h3 | hmail | ⟨k, hkj, hk⟩
  · exact .inl h3
  · exact .inr (.inl (by rwa [update_of_ne hqp]))
  have hki : k ≠ i := by
    rintro rfl
    simp [hidle] at hk
  exact .inr (.inr ⟨k, hkj, by rwa [update_of_ne hki]⟩)

end L1Inv

namespace TierAct

def looksUp : TierAct P Row ι → Option ι
  | .readLookup i true => some i
  | .readRelookup i true => some i
  | _ => none

end TierAct

namespace Tiers

section

variable {s : Tiers P Row ι}

lemma L1Inv_of_starts [DecidableEq P] (h : s.Starts) : L1Inv s.l3 s.l1 s.fence s.mail s.ops where
  copy p row hp := .inl (h.l1 p row hp)
  kept i p t row hi := by simp [h.idle i, keeps] at hi

end

variable [DecidableEq P] {s s' : Tiers P Row ι} {a : TierAct P Row ι}

def finder (s : Tiers P Row ι) (i : ι) : Option P :=
  match s.ops i with
  | .read p t _ => if s.l2.value.isSome && s.newest p t then some p else none
  | _ => none

/-- No lookup finds a row to cache while a withdrawal of its process has moved the fence and not yet
deleted the L2 entry, and no entry lapses under a write at the revision of an absent key. -/
def Clear (s : Tiers P Row ι) (a : TierAct P Row ι) : Prop :=
  (∀ i ∈ a.looksUp, ∀ p ∈ s.finder i, ∀ j, (s.ops j).withdrawsAt p = false) ∧ s.Settled a

instance [Fintype ι] (s : Tiers P Row ι) (a) : Decidable (s.Clear a) :=
  inferInstanceAs (Decidable ((∀ i ∈ a.looksUp, ∀ p ∈ s.finder i, ∀ _, _ = false) ∧ _))

/-- A row found in L2 by a ticket that is still the newest is L3's, or a change of L3 covers the
reader's process. -/
lemma found_covered (h2 : L2Inv s.l3 s.l2 s.ops) (hf : FenceInv s.fence s.ops) (ho : s.Clear a)
    {i : ι} {p : P} {t : KeyTicket} {pc : ReadPc Row} {row : Row} (hop : s.ops i = .read p t pc)
    (ha : a = .readLookup i true ∨ a = .readRelookup i true) (hrow : s.l2.value = some row)
    (hnew : s.newest p t = true) :
    s.l3 = some row ∨ ∃ j, j ≠ i ∧ (s.ops j).coversReads p = true := by
  rcases h2.entry row hrow with h3 | ⟨j, hj⟩
  · exact .inl h3
  have hi : j ≠ i := by
    rintro rfl
    simp [hop, owesL2] at hj
  rcases covers_of_owesL2 p hj with hcov | ⟨hsa, t', ht'⟩ | hwi
  · exact .inr ⟨j, hi, hcov⟩
  · -- a save of the process holds a ticket, so the reader's is not the newest
    have hw := hf.writesAt_of_save hsa ht'
    have hold := hf.rivals i j p t hi.symm (by simp [hop, ticket]) hw
    rw [newest, hold] at hnew
    cases hnew
  have hlook : i ∈ a.looksUp := by rcases ha with rfl | rfl <;> rfl
  have hfi : p ∈ s.finder i := by simp [finder, hop, hrow, hnew]
  rw [ho.1 i hlook p hfi j] at hwi
  cases hwi

variable [DecidableEq ι]

lemma L1Inv_moves (h2 : L2Inv s.l3 s.l2 s.ops) (hf : FenceInv s.fence s.ops)
    (h : L1Inv s.l3 s.l1 s.fence s.mail s.ops) (ho : s.Clear a) (hm : s.Moves a s') :
    L1Inv s'.l3 s'.l1 s'.fence s'.mail s'.ops := by
  cases hm with
  | foreign | lapse => exact h
  | expire p =>
    exact (h.refence fun j q t hj hnew => (hf.stillNewest_of_changed hj hnew).2).dropCopy p
  | readFound hop ha hrow =>
    apply h.setOp (by simp [hop]) (by simp [hop])
    rintro _ _ _ ⟨⟩ hnew
    rcases found_covered h2 hf ho hop ha hrow hnew with h3 | hcov
    · exact .inr (.inl h3)
    · exact .inr (.inr (.inr hcov))
  | readFetched hop h3 =>
    apply h.setOp (by simp [hop]) (by simp [hop])
    rintro _ _ _ ⟨⟩ _
    exact .inr (.inl h3)
  | saveStored hop hrow =>
    apply h.setOp (by simp [hop]) (by simp [hop])
    rintro _ _ _ ⟨⟩ _
    rcases hrow with rfl | h3
    · exact .inl (by rw [hop]; rfl)
    · exact .inr (.inl h3)
  | saveCommit hop | withdrawCommit row hop => exact .of_commit (by simp) (by simp [keeps])
  | readCached hop hnew =>
    exact h.keep hf (by rw [hop]; rfl) hnew (by simp [hop]) (by simp [hop]) (by simp [hop]) rfl
  | saveCached hop hnew =>
    refine h.keep hf (by rw [hop]; rfl) hnew ?_ ?_ (by simp [hop, isSave]) rfl
    all_goals
      intro q hqp
      simp [hqp.symm]
  | saveRefused hop | saveDropped hop | saveUnreadEvict hop | withdrawEvict hop | peerEvict hop =>
    refine h.evict hf ?_ ?_ rfl
    all_goals
      intro q hqp
      simp [hop, hqp.symm]
  | @withdrawFence i p c hop =>
    refine (h.refence fun j q t hj hnew => (hf.stillNewest_of_changed hj hnew).2).setOp
      ?_ ?_ (by simp [keeps])
    · intro q _
      simp [hop]
    intro q j t hj hnew
    have hqp := (hf.stillNewest_of_changed hj hnew).1
    simp [hqp.symm]
  | @withdrawRow i p c hop =>
    refine (h.dropCopy p).setOp ?_ ?_ (by simp [keeps])
    · intro q hq
      rcases eq_or_ne q p with rfl | hqp
      · simp at hq
      · simp [hqp.symm]
    intro q j t _ _
    by_cases hqp : p = q
    · simp [hop, hqp]
    · simp [hqp]
  | @stage i p row hop =>
    have ho' : L1Inv s.l3 s.l1 (update s.fence p (L1Fence.changed (s.fence p))) s.mail
        (update s.ops i (.save p .staged)) :=
      (h.refence fun j q t hj hnew => (hf.stillNewest_of_changed hj hnew).2).setOp
        (by simp [hop]) (by simp [hop]) (by simp [keeps])
    exact ho'.setCopy (i := i) row (by simp)
  | readBegin hop _ =>
    exact (h.refence fun j q t hj hnew => hf.stillNewest_of_beginTicket hj hnew).setOp
      (by simp [hop]) (by simp [hop]) (by simp [keeps])
  | @saveBegin i p row hop =>
    refine (h.refence fun j q t hj hnew => hf.stillNewest_of_beginTicket hj hnew).setOp
      ?_ ?_ (by simp [keeps])
    · intro q _
      rcases hop with hop | hop <;> simp [hop]
    intro q j t _ _
    rcases hop with hop | hop <;> simp [hop]
  | readEnd hop | saveEnd hop | saveFailed hop =>
    exact (h.refence fun j q t _ hnew => FenceInv.stillNewest_of_endTicket hnew).setOp
      (by simp [hop]) (by simp [hop]) (by simp [keeps])
  | announceSave hop | announceWithdraw hop => exact h.publish (by simp [hop]) (by simp [hop])
  | deliver hop _ => exact h.deliver hop
  | _ =>
    clear ho
    apply h.setOp
    · intro q _
      simp_all
    · intro q _ _ _ _
      simp_all
    · simp_all [keeps]

/-- What every step that meets the condition keeps, in one. -/
structure Coherent (s : Tiers P Row ι) : Prop where
  l2 : L2Inv s.l3 s.l2 s.ops
  fence : FenceInv s.fence s.ops
  l1 : L1Inv s.l3 s.l1 s.fence s.mail s.ops

lemma Coherent.step (h : s.Coherent) (ho : s.Clear a) (ht : s.step a = some s') : s'.Coherent := by
  have hm := moves_of_step ht
  exact ⟨L2Inv_moves h.l2 ho.2 hm, FenceInv_moves h.fence hm, L1Inv_moves h.l2 h.fence h.l1 ho hm⟩

/-- If no read finds a row to cache in L2 while a withdrawal of its own process stands between its
L1 eviction and its L2 delete, and L2 entries lapse only while no write at the revision of an absent
key is to come: with nothing in flight and every broadcast handled, each L1 copy is absent or L3's
row. -/
theorem l1_coherent [∀ (s : Tiers P Row ι) a, Decidable (s.Clear a)] {s₀ : Tiers P Row ι}
    {acts : List (TierAct P Row ι)} (h₀ : s₀.Starts)
    (hrun : (system.guard Clear).run s₀ acts = some s) (hidle : ∀ i, s.ops i = .idle)
    (hmail : ∀ p, s.mail p = 0) (p : P) : s.l1 p = none ∨ s.l1 p = s.l3 := by
  have hsa : s₀.Coherent := ⟨L2Inv_of_starts h₀, FenceInv_of_starts h₀, L1Inv_of_starts h₀⟩
  have h : s.Coherent := by
    refine (system.guard Clear).run_invariant (fun s a s' h ht => ?_) hsa hrun
    obtain ⟨ho, ht⟩ := system.guard_step_eq_some_iff.1 ht
    exact h.step ho ht
  cases hp : s.l1 p with
  | none => exact .inl rfl
  | some row =>
    rcases h.l1.copy p row hp with h3 | hm | ⟨j, hj⟩
    · exact .inr h3.symm
    · simp [hmail] at hm
    · simp [hidle j] at hj

/-- A read caches the row, and its L2 entry lapses; a delete evicts the copy, and once it has
deleted the L2 entry a second read finds nothing anywhere. -/
def readAfterDelete : List (TierAct Bool Nat Bool) :=
  [.readBegin false false, .readLookup false true, .readFetch false true, .readSeed false,
    .readCache false, .readEnd false, .lapse,
    .withdrawBegin true false, .withdrawCommit true none, .withdrawEvict true,
    .withdrawDelete true, .readBegin false false, .readLookup false true, .announce true,
    .readFetch false true, .readAbsent false, .readEnd false,
    .deliver true true, .peerProbe true, .peerEvict true]

theorem l1_coherent_readAfterDelete :
    ∃ s, (system.guard Clear).run (cold (some 1)) readAfterDelete = some s ∧
      (∀ i, s.ops i = .idle) ∧ (∀ p, s.mail p = 0) ∧ ∀ p, s.l1 p = none ∨ s.l1 p = s.l3 := by
  refine StepSystem.exists_run_imp _ (p := fun s => (∀ i, s.ops i = .idle) ∧ ∀ p, s.mail p = 0) rfl
    fun s hr hs => ?_
  exact ⟨hs.1, hs.2, l1_coherent (starts_cold _) hr hs.1 hs.2⟩

/-- The same with the second read inside the delete, between its L1 eviction and its L2
delete. -/
def readInsideDelete : List (TierAct Unit Nat Bool) :=
  [.readBegin false (), .readLookup false true, .readFetch false true, .readSeed false,
    .readCache false, .readEnd false,
    .withdrawBegin true (), .withdrawCommit true none, .withdrawEvict true,
    .readBegin false (), .readLookup false true, .readCache false, .readEnd false,
    .withdrawDelete true, .announce true]

/-- The deleted row stays in the L1 of the process that deleted it. -/
theorem l1_stale_readInsideDelete : ∃ s, system.run (cold (some 1)) readInsideDelete = some s ∧
      (∀ i, s.ops i = .idle) ∧ (∀ p, s.mail p = 0) ∧ s.l1 () = some 1 ∧ s.l3 = none :=
  system.exists_run_of_any rfl

end Tiers

end ThreeTears
