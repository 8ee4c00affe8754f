import ThreeTears.Lib.StepSystem
import ThreeTears.Collections.WriteBuffer

/-!
# Overlapping flushes over one write buffer

Any number of flushes drain one buffer, persist what they drained and acknowledge or re-enqueue it,
while writers add and remove. Every value gets a version, the place of its `add` among all of them,
which the buffer never looks at.

A claim is the membership of the key alone, and `add` clears it. When a value is added between the
drains of two flushes, the second one's claim stands for the first one's too, whose `ack` or
`re_enqueue` then acts on a value it never drained.
-/

namespace ThreeTears

open Function WriteBuffer

variable {K V ι : Type*}

/-- A value with its place among the values the buffer took. -/
structure Versioned (V : Type*) where
  data : V
  version : Nat
  deriving DecidableEq

/-- The buffer, what each flush has drained and not settled, and the history of the values. -/
structure BufferRun (K V ι : Type*) where
  wb : WriteBuffer K (Versioned V)
  drained : ι → List (K × PendingWrite (Versioned V))
  next : Nat
  added : List (K × Nat)
  settled : K → Nat

inductive BufferAct (K V ι : Type*)
  | add (k : K) (data : V)
  | drain (i : ι)
  | ack (i : ι) (k : K)
  | reEnqueue (i : ι) (k : K)
  | remove (k : K)

variable [DecidableEq K]

namespace BufferRun

variable [DecidableEq ι] (orderOf : V → Option L2Order)

/-- The buffer is opened; the durable rows an earlier process left are older than any value. -/
def start (l1 : Option (Dict K (PendingWrite V))) : BufferRun K V ι where
  wb := WriteBuffer.opened (l1.map (Dict.map fun pw => ⟨⟨pw.data, 0⟩, pw.retries⟩))
  drained _ := []
  next := 1
  added := []
  settled _ := 0

/-- The write of a key that flush `i` drained and has not settled. -/
def drainedFor (s : BufferRun K V ι) (i : ι) (k : K) : Option (PendingWrite (Versioned V)) :=
  Dict.lookup k (s.drained i)

/-- Flush `i` is done with the key. -/
def settle (s : BufferRun K V ι) (i : ι) (k : K) : ι → List (K × PendingWrite (Versioned V)) :=
  update s.drained i ((s.drained i).filter fun e => e.1 ≠ k)

def step (s : BufferRun K V ι) : BufferAct K V ι → Option (BufferRun K V ι)
  | .add k data =>
    let value : Versioned V := ⟨data, s.next⟩
    if s.wb.superseded (orderOf ·.data) k value then some s
    else some { s with
      wb := s.wb.add (orderOf ·.data) k value
      next := s.next + 1
      added := (k, s.next) :: s.added }
  | .drain i =>
    if s.drained i = [] then
      some { s with wb := s.wb.drain.1, drained := update s.drained i s.wb.drain.2 }
    else none
  | .ack i k =>
    match s.drainedFor i k with
    | some pw => some { s with
        wb := s.wb.ack k
        drained := s.settle i k
        settled := update s.settled k (max (s.settled k) (pw.data.version + 1)) }
    | none => none
  | .reEnqueue i k =>
    match s.drainedFor i k with
    | some pw => some { s with
        wb := (s.wb.reEnqueue (orderOf ·.data) k pw.data (pw.retries + 1)).1
        drained := s.settle i k }
    | none => none
  | .remove k =>
    some { s with
      wb := (s.wb.remove k).1
      settled := update s.settled k s.next }

def system : StepSystem (BufferRun K V ι) (BufferAct K V ι) := ⟨step orderOf⟩

/-- Every value taken is settled, or the buffer holds it or one taken after it. -/
def Retained (s : BufferRun K V ι) : Prop :=
  ∀ k n, (k, n) ∈ s.added →
    n < s.settled k ∨ ∃ pw, s.wb.held k = some pw ∧ n ≤ pw.data.version

/-- The key is not claimed, or what the buffer holds for it is the value flush `i` drained. -/
def OwnClaimOf (s : BufferRun K V ι) (i : ι) (k : K) : Prop :=
  k ∈ s.wb.inFlight → ∀ pw ∈ s.wb.held k, ∀ mine ∈ s.drainedFor i k,
    pw.data.version = mine.data.version
deriving Decidable

/-- An `ack` or `re_enqueue` finds the key unclaimed, or claimed for the value it is about. -/
def OwnClaim (s : BufferRun K V ι) : BufferAct K V ι → Prop
  | .ack i k => s.OwnClaimOf i k
  | .reEnqueue i k => s.OwnClaimOf i k
  | _ => True

instance (s : BufferRun K V ι) (a) : Decidable (s.OwnClaim a) := by
  unfold OwnClaim
  split <;> infer_instance

end BufferRun

structure BufferInv (wb : WriteBuffer K (Versioned V))
    (drained : ι → List (K × PendingWrite (Versioned V))) (next : Nat) (added : List (K × Nat))
    (settled : K → Nat) : Prop where
  held_lt : ∀ k pw, wb.held k = some pw → pw.data.version < next
  drained_lt : ∀ i k pw, (k, pw) ∈ drained i → pw.data.version < next
  added_lt : ∀ k n, (k, n) ∈ added → n < next
  newest : ∀ k pw n, wb.held k = some pw → (k, n) ∈ added → n ≤ pw.data.version
  kept : ∀ k n, (k, n) ∈ added → n < settled k ∨ ∃ pw, wb.held k = some pw
  claimed : wb.ClaimsHeld

namespace BufferInv

variable {wb : WriteBuffer K (Versioned V)} {drained : ι → List (K × PendingWrite (Versioned V))}
  {next : Nat} {added : List (K × Nat)} {settled : K → Nat} {k : K}

section

variable (h : BufferInv wb drained next added settled)
include h

lemma add (k : K) (data : V) :
    BufferInv (wb.store k ⟨⟨data, next⟩, 0⟩) drained (next + 1) ((k, next) :: added) settled := by
  refine ⟨?_, ?_, ?_, ?_, ?_, ?_⟩
  · intro k' pw hw
    rcases eq_or_ne k' k with rfl | hk
    · rw [held_store_self] at hw
      cases hw
      exact Nat.lt_succ_self _
    rw [held_store_of_ne hk] at hw
    exact Nat.lt_succ_of_lt (h.held_lt k' pw hw)
  · intro j k' pw hw
    exact Nat.lt_succ_of_lt (h.drained_lt j k' pw hw)
  · intro k' n hn
    rcases List.mem_cons.1 hn with he | hn
    · cases he
      exact Nat.lt_succ_self _
    · exact Nat.lt_succ_of_lt (h.added_lt k' n hn)
  · intro k' pw n hw hn
    rcases eq_or_ne k' k with rfl | hk
    · rw [held_store_self] at hw
      cases hw
      rcases List.mem_cons.1 hn with he | hn
      · cases he
        exact le_rfl
      · exact (h.added_lt k' n hn).le
    rw [held_store_of_ne hk] at hw
    rcases List.mem_cons.1 hn with he | hn
    · cases he
      exact absurd rfl hk
    · exact h.newest k' pw n hw hn
  · intro k' n hn
    rcases eq_or_ne k' k with rfl | hk
    · exact .inr ⟨_, held_store_self⟩
    rcases List.mem_cons.1 hn with he | hn
    · cases he
      exact absurd rfl hk
    rw [held_store_of_ne hk]
    exact h.kept k' n hn
  · exact h.claimed.store k _

lemma restore {pw held : PendingWrite (Versioned V)}
    (hheld : wb.held k = some held) (he : held.data.version = pw.data.version) :
    BufferInv (wb.store k pw) drained next added settled := by
  refine ⟨?_, h.drained_lt, h.added_lt, ?_, ?_, ?_⟩
  · intro k' pw' hw
    rcases eq_or_ne k' k with rfl | hk
    · rw [held_store_self] at hw
      cases hw
      exact he ▸ h.held_lt k' held hheld
    rw [held_store_of_ne hk] at hw
    exact h.held_lt k' pw' hw
  · intro k' pw' n hw hn
    rcases eq_or_ne k' k with rfl | hk
    · rw [held_store_self] at hw
      cases hw
      exact he ▸ h.newest k' held n hheld hn
    rw [held_store_of_ne hk] at hw
    exact h.newest k' pw' n hw hn
  · intro k' n hn
    rcases eq_or_ne k' k with rfl | hk
    · exact .inr ⟨_, held_store_self⟩
    rw [held_store_of_ne hk]
    exact h.kept k' n hn
  · exact h.claimed.store k _

lemma discard {m : Nat} (hm : ∀ n, (k, n) ∈ added → n < m) :
    BufferInv (wb.discard k) drained next added (update settled k m) := by
  refine ⟨?_, h.drained_lt, h.added_lt, ?_, ?_, ?_⟩
  · intro k' pw hw
    rcases eq_or_ne k' k with rfl | hk
    · rw [held_discard_self] at hw
      cases hw
    rw [held_discard_of_ne hk] at hw
    exact h.held_lt k' pw hw
  · intro k' pw n hw hn
    rcases eq_or_ne k' k with rfl | hk
    · rw [held_discard_self] at hw
      cases hw
    rw [held_discard_of_ne hk] at hw
    exact h.newest k' pw n hw hn
  · intro k' n hn
    rcases eq_or_ne k' k with rfl | hk
    · rw [update_self]
      exact .inl (hm n hn)
    rw [update_of_ne hk, held_discard_of_ne hk]
    exact h.kept k' n hn
  · exact h.claimed.discard k

lemma mono_settled {settled' : K → Nat}
    (hs : ∀ k, settled k ≤ settled' k) : BufferInv wb drained next added settled' := by
  refine { h with kept := ?_ }
  intro k n hn
  rcases h.kept k n hn with hlt | hheld
  · exact .inl (hlt.trans_le (hs k))
  · exact .inr hheld

lemma mono_drained {drained' : ι → List (K × PendingWrite (Versioned V))}
    (hd : ∀ i e, e ∈ drained' i → e ∈ drained i) : BufferInv wb drained' next added settled :=
  { h with drained_lt := fun i k pw hw => h.drained_lt i k pw (hd i _ hw) }

lemma drain [DecidableEq ι] (i : ι) :
    BufferInv wb.drain.1 (update drained i wb.drain.2) next added settled := by
  refine { h with drained_lt := ?_, claimed := h.claimed.drain }
  intro j k pw hw
  rcases eq_or_ne j i with rfl | hi
  · rw [update_self] at hw
    exact h.held_lt k pw (mem_unclaimed.1 hw).1
  rw [update_of_ne hi] at hw
  exact h.drained_lt j k pw hw

end

end BufferInv

namespace BufferRun

variable [DecidableEq ι]

def Inv (s : BufferRun K V ι) : Prop := BufferInv s.wb s.drained s.next s.added s.settled

variable {orderOf : V → Option L2Order} {s s' : BufferRun K V ι} {i : ι} {k : K}

omit [DecidableEq ι] in
lemma retained_of_inv (h : s.Inv) : s.Retained := by
  intro k n hn
  rcases BufferInv.kept h k n hn with hlt | ⟨pw, hw⟩
  · exact .inl hlt
  · exact .inr ⟨pw, hw, BufferInv.newest h k pw n hw hn⟩

omit [DecidableEq ι] in
lemma inv_start (l1 : Option (Dict K (PendingWrite V))) : (start l1 : BufferRun K V ι).Inv := by
  refine ⟨?_, ?_, ?_, ?_, ?_, ?_⟩
  · intro k pw hw
    cases l1 with
    | none => simp [start, opened, held, rows] at hw
    | some d =>
      simp only [start, opened, held, rows, Option.map_some,
        Option.getD_some, Dict.get_map, Option.map_eq_some_iff] at hw
      obtain ⟨pw', -, rfl⟩ := hw
      exact Nat.one_pos
  all_goals simp [start, opened, ClaimsHeld]

lemma mem_of_mem_settle {j : ι} {e : K × PendingWrite (Versioned V)}
    (he : e ∈ s.settle i k j) : e ∈ s.drained j := by
  unfold settle at he
  rcases eq_or_ne j i with rfl | hi
  · rw [update_self] at he
    exact (List.mem_filter.1 he).1
  · rwa [update_of_ne hi] at he

lemma inv_ack (h : s.Inv) (hown : s.OwnClaimOf i k) {pw : PendingWrite (Versioned V)}
    (hw : s.drainedFor i k = some pw) : BufferInv (s.wb.ack k) (s.settle i k) s.next s.added
      (update s.settled k (max (s.settled k) (pw.data.version + 1))) := by
  have hd := BufferInv.mono_drained h fun j e => mem_of_mem_settle (s := s) (i := i) (k := k)
  unfold WriteBuffer.ack
  split_ifs with hin
  · -- the claim is the flush's own: what it discards is the newest value, which it reports
    apply hd.discard
    intro n hn
    obtain ⟨held, hheld⟩ := BufferInv.claimed h k hin
    have hle := BufferInv.newest h k held n hheld hn
    rw [hown hin held hheld pw hw] at hle
    omega
  apply hd.mono_settled
  intro k'
  rcases eq_or_ne k' k with rfl | hk
  · rw [update_self]
    exact le_max_left _ _
  · rw [update_of_ne hk]

lemma inv_reEnqueue (h : s.Inv) (hown : s.OwnClaimOf i k) {pw : PendingWrite (Versioned V)}
    (hw : s.drainedFor i k = some pw) :
    BufferInv (s.wb.reEnqueue (orderOf ·.data) k pw.data (pw.retries + 1)).1 (s.settle i k) s.next
      s.added s.settled := by
  have hd := BufferInv.mono_drained h fun j e => mem_of_mem_settle (s := s) (i := i) (k := k)
  unfold WriteBuffer.reEnqueue
  split_ifs with hin
  · unfold WriteBuffer.addLocked
    split_ifs
    · exact hd
    obtain ⟨held, hheld⟩ := BufferInv.claimed h k hin
    exact hd.restore hheld (hown hin held hheld pw hw)
  · exact hd

lemma inv_step {a : BufferAct K V ι} (h : s.Inv) (hown : s.OwnClaim a)
    (ht : s.step orderOf a = some s') : s'.Inv := by
  cases a with simp only [step] at ht
  | add k data =>
    split_ifs at ht with hu <;> cases ht
    · exact h
    rw [Inv]
    simp only [WriteBuffer.add, WriteBuffer.addLocked, hu, Bool.false_eq_true, if_false]
    exact BufferInv.add h k data
  | drain i =>
    split_ifs at ht
    cases ht
    exact BufferInv.drain h i
  | ack i k =>
    split at ht <;> cases ht
    next pw hw => exact inv_ack h hown hw
  | reEnqueue i k =>
    split at ht <;> cases ht
    next pw hw => exact inv_reEnqueue h hown hw
  | remove k =>
    cases ht
    exact BufferInv.discard h fun n hn => BufferInv.added_lt h k n hn

/-- A call that finds the key unclaimed, or claimed for its own value, leaves a newer value
as it is. -/
lemma held_of_newer {a : BufferAct K V ι} (ha : a = .ack i k ∨ a = .reEnqueue i k)
    (hown : s.OwnClaimOf i k) (ht : s.step orderOf a = some s')
    {mine pw : PendingWrite (Versioned V)} (hm : s.drainedFor i k = some mine)
    (hheld : s.wb.held k = some pw) (hlt : mine.data.version < pw.data.version) :
    s'.wb.held k = some pw := by
  have hin : k ∉ s.wb.inFlight := by
    intro hin
    have := hown hin pw hheld mine hm
    omega
  rcases ha with rfl | rfl
  · simp only [step, hm] at ht
    cases ht
    simpa [WriteBuffer.ack, hin] using hheld
  simp only [step, hm] at ht
  cases ht
  simpa [reEnqueue, hin] using hheld

/-- If every `ack` and `re_enqueue` finds the key unclaimed or claimed for the value its flush
drained, the buffer holds every value taken, or a later one, until it is reported or removed, and no
such call touches a later value. -/
theorem retained {l1 : Option (Dict K (PendingWrite V))} {acts : List (BufferAct K V ι)}
    (hrun : ((system orderOf).guard OwnClaim).run (start l1) acts = some s) : s.Retained ∧
      ∀ a i k, (a = .ack i k ∨ a = .reEnqueue i k) → s.OwnClaim a →
        ∀ s', s.step orderOf a = some s' →
        ∀ mine pw, s.drainedFor i k = some mine → s.wb.held k = some pw →
          mine.data.version < pw.data.version → s'.wb.held k = some pw := by
  have h : s.Inv := by
    refine StepSystem.run_guard_invariant _ (fun s a s' h hown ht => ?_) (inv_start l1) hrun
    exact inv_step h hown ht
  refine ⟨retained_of_inv h, ?_⟩
  intro a i k ha hown s' ht mine pw hm hheld hlt
  have hown : s.OwnClaimOf i k := by
    rcases ha with rfl | rfl
    all_goals exact hown
  exact held_of_newer ha hown ht hm hheld hlt

/-- A value is added while a flush holds the one before it, which the flush then acknowledges. -/
def ackOfOlder : List (BufferAct Unit Nat Bool) :=
  [.add () 10, .drain false, .add () 20, .ack false ()]

theorem retained_ackOfOlder :
    ∃ s, ((system fun _ => none).guard OwnClaim).run (start none) ackOfOlder = some s ∧
      s.added = [((), 2), ((), 1)] ∧ s.Retained := by
  exact StepSystem.exists_run_and _ rfl fun s hr _ => (retained hr).1

/-- The same with a second flush, which drains the newer value before the acknowledgement. -/
def ackOverNewer : List (BufferAct Unit Nat Bool) :=
  [.add () 10, .drain false, .add () 20, .drain true, .ack false ()]

/-- The acknowledgement of the older value removes the newer one, which nobody reported. -/
theorem not_retained_ackOverNewer :
    ∃ s, (system fun _ => none).run (start none) ackOverNewer = some s ∧ ¬ s.Retained := by
  obtain ⟨s, hr, hd, hse, hheld⟩ : ∃ s,
      (system fun _ => none).run (start none) ackOverNewer = some s ∧
        ((), 2) ∈ s.added ∧ s.settled () = 2 ∧ s.wb.held () = none :=
    StepSystem.exists_run_of_any _ rfl
  refine ⟨s, hr, ?_⟩
  intro he
  rcases he () 2 hd with hlt | ⟨pw, hw, -⟩
  · omega
  rw [hheld] at hw
  cases hw

end BufferRun

end ThreeTears
