import ThreeTears.Lib.StepSystem

/-!
# A body that is cancelled under a lock

`nats_distributed_lock` cancels the body when the lease is lost, with the same counter that outside
cancellations use, and takes that cancellation back as the body ends.
-/

namespace ThreeTears

inductive BodyEnd (E : Type*)
  | finished
  | raised (exc : E)
  | cancelled
  deriving DecidableEq

/-- How the block is left. -/
inductive BlockEnd (R E : Type*)
  | body (e : BodyEnd E)
  | lockLost (reason : R)
  deriving DecidableEq

inductive LockPc (R E : Type*)
  | body
  | exiting (outcome : BlockEnd R E)
  | left (outcome : BlockEnd R E)
  deriving DecidableEq

def LockPc.outcome {R E : Type*} : LockPc R E → Option (BlockEnd R E)
  | body => none
  | exiting o => some o
  | left o => some o

/-- The task and the block: `marked` is a cancellation to be thrown at the next await, `byLoss` that
the loss made it or joined it, `outside` the outside cancellations that the body did not take back,
and `owed` that one stood as the body ended by a cancellation. -/
structure LockTask (R E : Type*) where
  count : Nat
  marked : Bool
  byLoss : Bool
  outside : Nat
  lost : Option R
  interrupted : Bool
  cancellingAtEntry : Nat
  owed : Bool
  pc : LockPc R E
  deriving DecidableEq

/-- A cancellation from outside, the loss of the lock, or what the task does next. -/
inductive LockAct (R E : Type*)
  | cancel
  | lose (reason : R)
  | await
  | uncancel
  | finish (e : BodyEnd E)
  | leave

namespace LockTask

variable {R E : Type*} {s s' : LockTask R E} {a : LockAct R E} {acts : List (LockAct R E)}

def start : LockTask R E := ⟨0, false, false, 0, none, false, 0, false, .body⟩

/-- `Task.uncancel`. -/
def uncancel (s : LockTask R E) : LockTask R E :=
  { s with
    count := s.count - 1
    marked := s.marked && 1 < s.count
    byLoss := s.byLoss && 1 < s.count }

/-- What the block raises, or `none` to go on with how the body ended. -/
def lockLost (s : LockTask R E) : BodyEnd E → Option R
  | .finished => s.lost
  | .cancelled => s.lost.filter fun _ => s.uncancel.count ≤ s.cancellingAtEntry
  | .raised _ => none

/-- The handlers of the block, up to the release. -/
def finish (s : LockTask R E) (e : BodyEnd E) : LockTask R E :=
  let owed := e matches .cancelled && 0 < s.outside
  if s.interrupted then
    { s.uncancel with
      interrupted := false
      owed := owed
      pc := .exiting (((s.lockLost e).map .lockLost).getD (.body e)) }
  else { s with owed := owed, pc := .exiting (.body e) }

def step (s : LockTask R E) (a : LockAct R E) : Option (LockTask R E) :=
  match s.pc, a with
  | .body, .lose reason => if s.lost.isSome then none else
    some { s with
      count := s.count + 1, marked := true, byLoss := true, lost := some reason
      interrupted := true }
  | .body, .await => some { s with marked := false, byLoss := false }
  | .body, .uncancel => some { s.uncancel with outside := s.outside - 1 }
  | .body, .finish e => some (s.finish e)
  | .exiting o, .await => some { s with
      marked := false, byLoss := false
      pc := .exiting (if s.marked then .body .cancelled else o) }
  | .exiting o, .leave => some { s with pc := .left o }
  | .left _, _ => none
  | _, .cancel => some { s with count := s.count + 1, marked := true, outside := s.outside + 1 }
  | _, _ => none

def system : StepSystem (LockTask R E) (LockAct R E) := ⟨step⟩

/-- The body takes back no cancellation but outside ones, and does not end while the loss's is still
to be thrown and an outside one stands. -/
def careful (s : LockTask R E) : LockAct R E → Bool
  | .uncancel => s.count = 0 || 0 < s.outside
  | .finish _ => !s.byLoss || s.outside = 0
  | _ => true

structure Inv (s : LockTask R E) : Prop where
  entry : s.cancellingAtEntry = 0
  count : s.count = s.outside + if s.interrupted then 1 else 0
  lost : s.interrupted → s.lost.isSome
  byLoss : s.byLoss → s.interrupted
  ended : ∀ o, s.pc.outcome = some o → s.interrupted = false ∧
    (∀ r, o = .lockLost r → s.lost = some r) ∧ (s.owed → o = .body .cancelled)

lemma lost_of_lockLost {e : BodyEnd E} {r : R} (h : s.lockLost e = some r) : s.lost = some r := by
  cases e with
  | finished => exact h
  | raised => cases h
  | cancelled => exact (Option.filter_eq_some_iff.1 h).1

/-- The handlers take back the loss's cancellation. -/
lemma Inv.finish (h : Inv s) {e : BodyEnd E} (hc : s.careful (.finish e)) : Inv (s.finish e) := by
  have hcount := h.count
  simp only [careful, Bool.or_eq_true, Bool.not_eq_true', decide_eq_true_eq] at hc
  unfold LockTask.finish
  dsimp only
  split_ifs with hi
  · rw [if_pos hi] at hcount
    refine ⟨h.entry, by simp [uncancel, hcount], nofun, fun hb => ?_, ?_⟩
    · simp only [uncancel, Bool.and_eq_true, decide_eq_true_eq] at hb
      obtain hl | hout := hc
      · cases hl.symm.trans hb.1
      · omega
    rintro o ⟨⟩
    refine ⟨rfl, fun r hr => ?_, fun ho => ?_⟩
    · cases hl : s.lockLost e with rw [hl] at hr
      | none => cases hr
      | some r' =>
        cases hr
        exact (lost_of_lockLost hl : s.lost = _)
    · cases e with
      | cancelled =>
        have hout : 0 < s.outside := by simpa using ho
        have hnone : s.lockLost .cancelled = none := by
          refine Option.filter_eq_none_iff.2 fun r _ hr => ?_
          simp only [uncancel, h.entry, hcount, decide_eq_true_eq] at hr
          omega
        rw [hnone]
        rfl
      | finished | raised => cases ho
  · refine ⟨h.entry, hcount, h.lost, h.byLoss, ?_⟩
    rintro o ⟨⟩
    refine ⟨by simpa using hi, nofun, fun ho => ?_⟩
    cases e with
    | cancelled => rfl
    | finished | raised => cases ho

lemma Inv.step (h : Inv s) (hc : s.careful a) (hst : s.step a = some s') : Inv s' := by
  have hcount := h.count
  have hno : s.pc = .body → ∀ {p : Prop} o, s.pc.outcome = some o → p := by
    intro hpc p o ho
    rw [hpc] at ho
    cases ho
  unfold LockTask.step at hst
  split at hst
  next hpc =>
    split_ifs at hst with hl
    cases hst
    have hi : ¬s.interrupted := fun hi => hl (h.lost hi)
    rw [if_neg hi] at hcount
    exact ⟨h.entry, by simp [hcount], fun _ => rfl, fun _ => rfl, fun o => hno hpc o⟩
  next hpc =>
    cases hst
    exact ⟨h.entry, hcount, h.lost, nofun, fun o => hno hpc o⟩
  next hpc =>
    cases hst
    simp only [careful, Bool.or_eq_true, decide_eq_true_eq] at hc
    refine ⟨h.entry, ?_, h.lost, fun hb => ?_, fun o => hno hpc o⟩
    swap
    · exact h.byLoss (Bool.and_eq_true_iff.1 hb).1
    show s.count - 1 = s.outside - 1 + if s.interrupted then 1 else 0
    omega
  next =>
    cases hst
    exact h.finish hc
  next o hpc =>
    cases hst
    obtain ⟨hi, hr, ho⟩ := h.ended o (by rw [hpc]; rfl)
    refine ⟨h.entry, hcount, h.lost, nofun, ?_⟩
    rintro _ ⟨⟩
    refine ⟨hi, fun r hl => ?_, fun hw => ?_⟩
    · split_ifs at hl
      exact hr r hl
    · split_ifs
      · rfl
      · exact ho hw
  next o hpc =>
    cases hst
    refine ⟨h.entry, hcount, h.lost, h.byLoss, ?_⟩
    rintro _ ⟨⟩
    exact h.ended o (by rw [hpc]; rfl)
  next => cases hst
  next =>
    cases hst
    exact ⟨h.entry, by simp only [hcount]; omega, h.lost, h.byLoss, h.ended⟩
  next => cases hst

/-- After the body, in every run of a careful one: the outside cancellations are what is counted,
only a loss raises `LockLost`, an outside cancellation goes on, and none of the loss is left. -/
theorem own_cancellation_back (hrun : (system.guard (·.careful ·)).run start acts = some s)
    {o : BlockEnd R E} (ho : s.pc.outcome = some o) :
    s.count = s.outside ∧ (∀ r, o = .lockLost r → s.lost = some r) ∧
      (s.owed → o = .body .cancelled) ∧ s.byLoss = false := by
  have hstart : Inv (start : LockTask R E) :=
    ⟨rfl, rfl, by simp [start], by simp [start], by simp [start, LockPc.outcome]⟩
  have hinv := system.run_guard_invariant (fun _ _ _ h hc hst => h.step hc hst) hstart hrun
  obtain ⟨hi, hr, hw⟩ := hinv.ended o ho
  have hcount := hinv.count
  rw [hi] at hcount
  refine ⟨hcount, hr, hw, Bool.eq_false_iff.2 fun hb => ?_⟩
  cases hi.symm.trans (hinv.byLoss hb)

theorem own_cancellation_back_lost : ∃ s : LockTask Unit Unit,
    (system.guard (·.careful ·)).run start [.lose (), .finish .finished, .await, .leave] = some s ∧
      s.pc.outcome = some (.lockLost ()) ∧ s.count = s.outside := by
  have hrun : (system.guard (·.careful ·)).run (start : LockTask Unit Unit)
      [.lose (), .finish .finished, .await, .leave] =
        some ⟨0, false, false, 0, some (), false, 0, false, .left (.lockLost ())⟩ := by decide
  exact ⟨_, hrun, rfl, (own_cancellation_back hrun rfl).1⟩

/-- A body that takes the loss's cancellation back has the block take an outside one for it; and
what the loss marked is thrown after the body where an outside cancellation stands. -/
theorem outside_taken_back : (system.run (start : LockTask Unit Unit)
      [.lose (), .await, .uncancel, .cancel, .await, .finish .cancelled]).any
        (fun s => s.pc = .exiting (.lockLost ()) ∧ s.count = 0 ∧ s.outside = 1) ∧
    (system.run (start : LockTask Unit Unit)
      [.cancel, .await, .lose (), .finish .finished]).any (fun s => s.byLoss ∧ s.marked) ∧
    (system.run (start : LockTask Unit Unit)
      [.cancel, .await, .lose (), .finish .finished, .await]).any
        (fun s => s.pc = .exiting (.body .cancelled)) := by decide

end LockTask

end ThreeTears
