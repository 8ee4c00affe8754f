import ThreeTears.Lib.Families
import ThreeTears.Collections.TierSteps

/-!
# The fence of each process and the tickets on it

The fence's counters are the tickets in flight, so a record stays in place as long as a ticket is
out, and of two tickets of one process of which one is a write's, the other is not the newest.
-/

namespace ThreeTears

open Function L1Fence Op

variable {P Row ι : Type*}

def SavePc.ticket : SavePc Row → Option KeyTicket
  | .staged => none
  | .begun _ t => some t
  | .before _ t _ => some t
  | .committed _ t _ => some t
  | .stored _ t _ => some t
  | .refused _ t => some t
  | .written _ t _ => some t
  | .unread t => some t
  | .unreadEvicted t => some t
  | .cached t => some t
  | .failed t => some t
  | .announcing => none

namespace Op

def ticket : Op P Row → Option (P × KeyTicket)
  | .read p t _ => some (p, t)
  | .save p pc => pc.ticket.map fun t => (p, t)
  | _ => none

def isSave : Op P Row → Bool
  | .save _ _ => true
  | _ => false

/-- The operation holds a ticket of process `p`. -/
def holdsAt (p : P) (op : Op P Row) : Prop := ∃ t, op.ticket = some (p, t)

/-- The operation holds a write's ticket of process `p`. -/
def writesAt (p : P) (op : Op P Row) : Prop := ∃ t, op.ticket = some (p, t) ∧ t.writing = true

lemma writesAt.holdsAt {p : P} {op : Op P Row} (h : op.writesAt p) : op.holdsAt p := by
  obtain ⟨t, ht, -⟩ := h
  exact ⟨t, ht⟩

end Op

/-- The fences count the tickets in flight, and a write's ticket ends the freshness of any other
ticket of its process. -/
structure FenceInv (fence : P → L1Fence) (ops : ι → Op P Row) : Prop where
  holders : ∀ p, {i | (ops i).holdsAt p}.encard = L1Fence.holders (fence p)
  writers : ∀ p, {i | (ops i).writesAt p}.encard = L1Fence.writers (fence p)
  holds : ∀ i p t, (ops i).ticket = some (p, t) → L1Fence.Holds (fence p) t
  rivals : ∀ i j p t, i ≠ j → (ops i).ticket = some (p, t) → (ops j).writesAt p →
    L1Fence.stillNewest (fence p) t = false
  saves : ∀ i p t, (ops i).isSave = true → (ops i).ticket = some (p, t) → t.writing = true

namespace FenceInv

variable {fence : P → L1Fence} {ops : ι → Op P Row} {i : ι} {p : P} {t : KeyTicket} {op : Op P Row}
  (h : FenceInv fence ops)
include h

lemma writesAt_of_save (hs : (ops i).isSave = true)
    (ht : (ops i).ticket = some (p, t)) : (ops i).writesAt p := ⟨t, ht, h.saves i p t hs ht⟩

lemma writers_pos (hw : (ops i).writesAt p) : 0 < L1Fence.writers (fence p) := by
  rw [Nat.pos_iff_ne_zero]
  intro h0
  have he := h.writers p
  rw [h0, Nat.cast_zero, Set.encard_eq_zero] at he
  have : i ∈ {i | (ops i).writesAt p} := hw
  rw [he] at this
  exact this

lemma writers_le (p : P) : L1Fence.writers (fence p) ≤ L1Fence.holders (fence p) := by
  have hu : {i | (ops i).writesAt p} ⊆ {i | (ops i).holdsAt p} := fun _ hj => hj.holdsAt
  have := Set.encard_le_encard hu
  rw [h.writers p, h.holders p] at this
  exact_mod_cast this

lemma writers_lt (ht : (ops i).ticket = some (p, t))
    (hw : t.writing = false) : L1Fence.writers (fence p) + 1 ≤ L1Fence.holders (fence p) := by
  have hi : i ∉ {i | (ops i).writesAt p} := by
    rintro ⟨t', ht', hw'⟩
    rw [ht] at ht'
    obtain ⟨-, rfl⟩ := Prod.mk.inj (Option.some.inj ht')
    rw [hw] at hw'
    cases hw'
  have hu : insert i {i | (ops i).writesAt p} ⊆ {i | (ops i).holdsAt p} :=
    Set.insert_subset ⟨t, ht⟩ fun _ hj => hj.holdsAt
  have := Set.encard_le_encard hu
  rw [Set.encard_insert_of_notMem hi, h.writers p, h.holders p] at this
  exact_mod_cast this

lemma two_le_holders {j : ι} (hij : i ≠ j) (hi : (ops i).holdsAt p)
    (hj : (ops j).holdsAt p) : 2 ≤ L1Fence.holders (fence p) := by
  have : 1 < {i | (ops i).holdsAt p}.encard := Set.one_lt_encard_iff.2 ⟨i, j, hi, hj, hij⟩
  rw [h.holders p] at this
  exact_mod_cast this

variable [DecidableEq ι]

lemma setOp (ht : op.ticket = (ops i).ticket)
    (hs : ∀ x, op.ticket = some x → op.isSave = (ops i).isSave) :
    FenceInv fence (update ops i op) := by
  have hi : ∀ j, (update ops i op j).ticket = (ops j).ticket := by
    intro j
    rcases eq_or_ne j i with rfl | hji
    · rw [update_self, ht]
    · rw [update_of_ne hji]
  refine ⟨?_, ?_, ?_, ?_, ?_⟩
  · intro q
    simp only [holdsAt, hi]
    exact h.holders q
  · intro q
    simp only [writesAt, hi]
    exact h.writers q
  · intro j q t hj
    rw [hi] at hj
    exact h.holds j q t hj
  · intro j k q t hjk hj hk
    simp only [writesAt, hi] at hj hk
    exact h.rivals j k q t hjk hj hk
  intro j q t hsa hj
  rcases eq_or_ne j i with rfl | hji
  · rw [update_self] at hsa hj
    rw [hs _ hj] at hsa
    exact h.saves j q t hsa (ht ▸ hj)
  rw [update_of_ne hji] at hsa hj
  exact h.saves j q t hsa hj

variable [DecidableEq P]

omit [DecidableEq ι] in
lemma changed (p : P) : FenceInv (update fence p (changed (fence p))) ops := by
  refine ⟨?_, ?_, ?_, ?_, h.saves⟩
  · intro q
    rcases eq_or_ne q p with rfl | hq
    · simpa using h.holders q
    · simpa [hq] using h.holders q
  · intro q
    rcases eq_or_ne q p with rfl | hq
    · simpa using h.writers q
    · simpa [hq] using h.writers q
  · intro j q t hj
    rcases eq_or_ne q p with rfl | hq
    · rw [update_self]
      exact (h.holds j q t hj).changed
    rw [update_of_ne hq]
    exact h.holds j q t hj
  intro j k q t hjk hj hk
  rcases eq_or_ne q p with rfl | hq
  · rw [update_self]
    exact (h.holds j q t hj).not_stillNewest_changed
  rw [update_of_ne hq]
  exact h.rivals j k q t hjk hj hk

omit [DecidableEq ι] in
lemma stillNewest_of_changed {q : P} (ht : (ops i).ticket = some (q, t))
    (hnew : L1Fence.stillNewest (update fence p (L1Fence.changed (fence p)) q) t = true) :
    q ≠ p ∧ L1Fence.stillNewest (fence q) t = true := by
  rcases eq_or_ne q p with rfl | hq
  · rw [update_self, (h.holds i q t ht).not_stillNewest_changed] at hnew
    cases hnew
  rw [update_of_ne hq] at hnew
  exact ⟨hq, hnew⟩

omit [DecidableEq ι] in
lemma stillNewest_of_beginTicket {w : Bool} {q : P} (ht : (ops i).ticket = some (q, t))
    (hnew : stillNewest (update fence p (some (beginTicket (fence p) w).1) q) t = true) :
    stillNewest (fence q) t = true := by
  rcases eq_or_ne q p with rfl | hq
  · rw [update_self] at hnew
    cases w with
    | true =>
      rw [(h.holds i q t ht).not_stillNewest_beginWrite] at hnew
      cases hnew
    | false => rwa [(h.holds i q t ht).stillNewest_beginRead] at hnew
  · rwa [update_of_ne hq] at hnew

omit h in
lemma stillNewest_of_endTicket {q : P} {t' : KeyTicket} (hnew : stillNewest
      (update fence p (endTicket (fence p) t') q) t = true) : stillNewest (fence q) t = true := by
  rcases eq_or_ne q p with rfl | hq
  · rw [update_self] at hnew
    exact stillNewest_of_endTicket hnew
  · rwa [update_of_ne hq] at hnew

lemma beginTicket {w : Bool} (hnone : (ops i).ticket = none)
    (ht : op.ticket = some (p, (L1Fence.beginTicket (fence p) w).2))
    (hs : op.isSave = true → w = true) :
    FenceInv (update fence p (some (L1Fence.beginTicket (fence p) w).1)) (update ops i op) := by
  have ho : ∀ q, q ≠ p → ¬ op.holdsAt q := by
    rintro q hq ⟨t, htq⟩
    rw [ht] at htq
    exact hq (Prod.mk.inj (Option.some.inj htq)).1.symm
  have hno : ∀ q, ¬ (ops i).holdsAt q := by
    rintro q ⟨t, htq⟩
    rw [hnone] at htq
    cases htq
  have hr : op.writesAt p ↔ w = true := by
    constructor
    · rintro ⟨t, htq, hw⟩
      rw [ht] at htq
      obtain ⟨-, rfl⟩ := Prod.mk.inj (Option.some.inj htq)
      exact hw
    intro hw
    exact ⟨_, ht, hw⟩
  refine ⟨?_, ?_, ?_, ?_, ?_⟩
  · intro q
    rcases eq_or_ne q p with rfl | hq
    · rw [encard_update_of_gain (hno q) ⟨_, ht⟩, h.holders q, update_self, holders_beginTicket]
      rfl
    rw [encard_update_of_iff (iff_of_false (ho q hq) (hno q)), update_of_ne hq]
    exact h.holders q
  · intro q
    have hi : ¬ (ops i).writesAt q := fun hw => hno q hw.holdsAt
    rcases eq_or_ne q p with rfl | hq
    · rw [update_self, writers_beginTicket]
      cases w with
      | true => rw [encard_update_of_gain hi (hr.2 rfl), h.writers q]; rfl
      | false =>
        have hop : ¬ op.writesAt q := by simp [hr]
        rw [encard_update_of_iff (iff_of_false hop hi)]
        exact h.writers q
    have hop : ¬ op.writesAt q := fun hw => ho q hq hw.holdsAt
    rw [encard_update_of_iff (iff_of_false hop hi), update_of_ne hq]
    exact h.writers q
  · intro j q t hj
    rcases eq_or_ne j i with rfl | hji
    · rw [update_self, ht] at hj
      obtain ⟨rfl, rfl⟩ := Prod.mk.inj (Option.some.inj hj)
      rw [update_self]
      exact holds_beginTicket _ _
    rw [update_of_ne hji] at hj
    rcases eq_or_ne q p with rfl | hq
    · rw [update_self]
      exact (h.holds j q t hj).beginTicket w
    rw [update_of_ne hq]
    exact h.holds j q t hj
  · intro j k q t hjk hj hk
    rcases eq_or_ne j i with rfl | hji
    · rw [update_of_ne hjk.symm] at hk
      rw [update_self, ht] at hj
      obtain ⟨rfl, rfl⟩ := Prod.mk.inj (Option.some.inj hj)
      exact not_stillNewest_of_contended (h.writers_pos hk) w
    rw [update_of_ne hji] at hj
    rcases eq_or_ne k i with rfl | hki
    · rw [update_self] at hk
      rcases eq_or_ne q p with rfl | hq
      · obtain rfl := hr.1 hk
        rw [update_self]
        exact (h.holds j q t hj).not_stillNewest_beginWrite
      · exact absurd hk.holdsAt (ho q hq)
    rw [update_of_ne hki] at hk
    have hold := h.rivals j k q t hjk hj hk
    exact Bool.eq_false_iff.2 (mt (h.stillNewest_of_beginTicket hj) (by simp [hold]))
  intro j q t hsa hj
  rcases eq_or_ne j i with rfl | hji
  · rw [update_self] at hsa hj
    rw [ht] at hj
    obtain ⟨rfl, rfl⟩ := Prod.mk.inj (Option.some.inj hj)
    exact hs hsa
  rw [update_of_ne hji] at hsa hj
  exact h.saves j q t hsa hj

lemma endTicket (ht : (ops i).ticket = some (p, t)) (hnone : op.ticket = none) :
    FenceInv (update fence p (L1Fence.endTicket (fence p) t)) (update ops i op) := by
  have ho : ∀ q, q ≠ p → ¬ (ops i).holdsAt q := by
    rintro q hq ⟨t', htq⟩
    rw [ht] at htq
    exact hq (Prod.mk.inj (Option.some.inj htq)).1.symm
  have hno : ∀ q, ¬ op.holdsAt q := by
    rintro q ⟨t', htq⟩
    rw [hnone] at htq
    cases htq
  have he {j : ι} {x : P × KeyTicket} (hj : (update ops i op j).ticket = some x) : j ≠ i := by
    rintro rfl
    rw [update_self, hnone] at hj
    cases hj
  have hr : (ops i).writesAt p ↔ t.writing = true := by
    constructor
    · rintro ⟨t', htq, hw⟩
      rw [ht] at htq
      obtain ⟨-, rfl⟩ := Prod.mk.inj (Option.some.inj htq)
      exact hw
    intro hw
    exact ⟨t, ht, hw⟩
  refine ⟨?_, ?_, ?_, ?_, ?_⟩
  · intro q
    rcases eq_or_ne q p with rfl | hq
    · have hc := encard_update_of_loss (f := ops) (i := i) (b := op) (Q := holdsAt q)
        ⟨t, ht⟩ (hno q)
      rw [h.holders q] at hc
      rw [update_self, holders_endTicket]
      exact encard_eq_sub_one hc
    rw [encard_update_of_iff (iff_of_false (hno q) (ho q hq)), update_of_ne hq]
    exact h.holders q
  · intro q
    have hop : ¬ op.writesAt q := fun hw => hno q hw.holdsAt
    rcases eq_or_ne q p with rfl | hq
    · rw [update_self, writers_endTicket (h.writers_le q) (h.writers_lt ht)]
      cases hw : t.writing with
      | true =>
        have hc := encard_update_of_loss (f := ops) (i := i) (b := op) (Q := writesAt q)
          (hr.2 hw) hop
        rw [h.writers q] at hc
        exact encard_eq_sub_one hc
      | false =>
        have hi : ¬ (ops i).writesAt q := by simp [hr, hw]
        rw [encard_update_of_iff (iff_of_false hop hi)]
        exact h.writers q
    have hi : ¬ (ops i).writesAt q := fun hw => ho q hq hw.holdsAt
    rw [encard_update_of_iff (iff_of_false hop hi), update_of_ne hq]
    exact h.writers q
  · intro j q t' hj
    have hji := he hj
    rw [update_of_ne hji] at hj
    rcases eq_or_ne q p with rfl | hq
    · rw [update_self]
      exact (h.holds j q t' hj).endTicket t (h.two_le_holders hji ⟨t', hj⟩ ⟨t, ht⟩)
    rw [update_of_ne hq]
    exact h.holds j q t' hj
  · intro j k q t' hjk hj hk
    rw [update_of_ne (he hj)] at hj
    rcases eq_or_ne k i with rfl | hki
    · rw [update_self] at hk
      exact absurd hk.holdsAt (hno q)
    rw [update_of_ne hki] at hk
    have hold := h.rivals j k q t' hjk hj hk
    exact Bool.eq_false_iff.2 (mt stillNewest_of_endTicket (by simp [hold]))
  intro j q t' hsa hj
  rw [update_of_ne (he hj)] at hsa hj
  exact h.saves j q t' hsa hj

end FenceInv

namespace Tiers

variable {s s' : Tiers P Row ι} {a : TierAct P Row ι}

lemma FenceInv_of_starts (h : s.Starts) : FenceInv s.fence s.ops where
  holders p := by simp [h.idle, h.fence, holdsAt, ticket]
  writers p := by simp [h.idle, h.fence, writesAt, ticket]
  holds i p t ht := by simp [h.idle, ticket] at ht
  rivals i j p t _ ht := by simp [h.idle, ticket] at ht
  saves i p t hs := by simp [h.idle, isSave] at hs

variable [DecidableEq P] [DecidableEq ι]

lemma FenceInv_moves (h : FenceInv s.fence s.ops) (hm : s.Moves a s') :
    FenceInv s'.fence s'.ops := by
  cases hm with
  | foreign | lapse => exact h
  | expire p => exact h.changed p
  | readBegin hop _ => exact h.beginTicket (by simp [hop, ticket]) rfl (by simp [isSave])
  | saveBegin row hop =>
    rcases hop with hop | hop
    all_goals exact h.beginTicket (by simp [hop, ticket, SavePc.ticket]) rfl (fun _ => rfl)
  | readEnd hop => exact h.endTicket (by simp [hop, ticket]) rfl
  | saveEnd hop | saveFailed hop => exact h.endTicket (by simp [hop, ticket, SavePc.ticket]) rfl
  | stage p row hop =>
    exact (h.changed p).setOp (by simp [hop, ticket, SavePc.ticket])
      (by simp [ticket, SavePc.ticket])
  | saveRefused hop | saveDropped hop | saveUnreadEvict hop =>
    exact (h.changed _).setOp (by simp [hop, ticket, SavePc.ticket]) (by simp [hop, isSave])
  | withdrawEvict hop | withdrawFence hop | peerEvict hop =>
    exact (h.changed _).setOp (by simp [hop, ticket]) (by simp [ticket])
  | _ =>
    apply h.setOp
    · simp_all [ticket, SavePc.ticket]
    · simp_all [ticket, SavePc.ticket, isSave]

end Tiers

end ThreeTears
