import ThreeTears.Lib.StepSystem
import Mathlib.Data.Fintype.Basic

/-!
# A schedule that is stopped

Every step is one statement on a job's row. A tick reads the row while it is due and claims it in a
later statement, which compares the occurrence it read and nothing else.
-/

namespace ThreeTears

inductive ScheduleStatus
  | active
  | paused
  | expired
  deriving DecidableEq

/-- The columns of a job's row that the statements compare or set. Instants are counted. -/
structure ScheduledJob where
  status : ScheduleStatus
  nextFireAt : Option Int
  lastFiredAt : Option Int
  dateUpdated : Int
  deriving DecidableEq

structure JobClaim where
  scheduledFireAt : Int
  claimedAt : Int
  claimedNextFireAt : Option Int
  claimedStatus : ScheduleStatus
  deriving DecidableEq

namespace ScheduledJob

variable (job : ScheduledJob) (next : Option Int) (now : Int)

/-- Whether `list_due_for_tick` selects the row. -/
def isDue : Bool := job.status = .active ∧ job.nextFireAt.any (· ≤ now)

def setStatus (status : ScheduleStatus) : ScheduledJob :=
  { job with status := status, dateUpdated := now }

/-- `next` is what `compute_next_fire_at` answers for the new configuration. -/
def updateSchedule : ScheduledJob := { job with nextFireAt := next, dateUpdated := now }

def requestImmediateFire : Option ScheduledJob :=
  if job.status = .active then some { job with nextFireAt := some now, dateUpdated := now }
  else none

def undoClaim (claim : JobClaim) : Option ScheduledJob :=
  if job.status = claim.claimedStatus ∧ job.nextFireAt = claim.claimedNextFireAt ∧
      job.lastFiredAt = some claim.claimedAt ∧ job.dateUpdated = claim.claimedAt then
    some { job with
      nextFireAt := some claim.scheduledFireAt, status := .active, dateUpdated := now }
  else none

def claimAndReschedule (expected : Int) (newStatus : ScheduleStatus) : Option ScheduledJob :=
  if job.nextFireAt = some expected then
    some { status := newStatus, nextFireAt := next, lastFiredAt := some now, dateUpdated := now }
  else none

end ScheduledJob

/-- A job, the ticks of all pods and the claims made so far. -/
structure JobRun (ι : Type*) where
  job : ScheduledJob
  /-- the occurrence that a tick read and has yet to claim, and the tick's instant -/
  ticks : ι → Option (Int × Int)
  claims : List JobClaim
  /-- what the last `set_status` set, unless it was `active` -/
  stopped : Option ScheduleStatus

inductive JobAct (ι : Type*)
  | scan (i : ι) (now : Int)
  /-- `next` is what `compute_next_fire_at` answers, `none` for a one-shot -/
  | claim (i : ι) (next : Option Int)
  | setStatus (status : ScheduleStatus) (now : Int)
  | updateSchedule (next : Option Int) (now : Int)
  | requestImmediateFire (now : Int)
  | undoClaim (claim : JobClaim) (now : Int)

namespace JobRun

variable {ι : Type*} [DecidableEq ι] {s s' : JobRun ι} {a : JobAct ι}

/-- `_dispatch_one` up to its claim. -/
def claim (s : JobRun ι) (i : ι) (next : Option Int) (expected now : Int) : JobRun ι :=
  let newStatus := if next = none then .expired else .active
  match s.job.claimAndReschedule next now expected newStatus with
  | none => { s with ticks := Function.update s.ticks i none }
  | some job =>
    { s with
      job := job
      ticks := Function.update s.ticks i none
      claims := ⟨expected, now, next, newStatus⟩ :: s.claims }

def step (s : JobRun ι) : JobAct ι → Option (JobRun ι)
  | .scan i now =>
    let read := if s.job.isDue now then s.job.nextFireAt.map (·, now) else none
    some { s with ticks := Function.update s.ticks i read }
  | .claim i next => (s.ticks i).map fun read => s.claim i next read.1 read.2
  | .setStatus status now =>
    some { s with
      job := s.job.setStatus now status
      stopped := if status = .active then none else some status }
  | .updateSchedule next now => some { s with job := s.job.updateSchedule next now }
  | .requestImmediateFire now => some { s with job := (s.job.requestImmediateFire now).getD s.job }
  | .undoClaim claim now =>
    if claim ∈ s.claims then some { s with job := (s.job.undoClaim now claim).getD s.job } else none

def system : StepSystem (JobRun ι) (JobAct ι) := ⟨step⟩

omit [DecidableEq ι] in
def start (job : ScheduledJob) : JobRun ι := ⟨job, fun _ => none, [], none⟩

/-- As a job is stopped, and while it is, no tick has yet to claim the occurrence the row stands at,
and no statement has the instant of the last claim. -/
def Orderly (s : JobRun ι) : JobAct ι → Prop
  | .setStatus status now => status ≠ .active →
      (∀ i, ∀ read ∈ s.ticks i, s.job.nextFireAt ≠ some read.1) ∧ s.job.lastFiredAt ≠ some now
  | .updateSchedule next now => s.job.status ≠ .active →
      (∀ i, ∀ read ∈ s.ticks i, next ≠ some read.1) ∧ s.job.lastFiredAt ≠ some now
  | .scan _ _ | .claim _ _ | .requestImmediateFire _ | .undoClaim _ _ => True

/-- A stopped job has the status that was set, no tick can claim it and no claim can be undone. -/
structure Stopped (s : JobRun ι) (status : ScheduleStatus) : Prop where
  kept : s.job.status = status
  ne_active : status ≠ .active
  ticks : ∀ i, ∀ read ∈ s.ticks i, s.job.nextFireAt ≠ some read.1
  moved : s.job.lastFiredAt ≠ some s.job.dateUpdated

lemma Stopped.claim_eq {sta : ScheduleStatus} (h : s.Stopped sta) {i : ι} {next : Option Int}
    {read : Int × Int} (hread : s.ticks i = some read) :
    s.claim i next read.1 read.2 = { s with ticks := Function.update s.ticks i none } := by
  simp [claim, ScheduledJob.claimAndReschedule, h.ticks i read hread]

lemma stopped_step (h : ∀ status, s.stopped = some status → s.Stopped status) (hk : s.Orderly a)
    (ht : s.step a = some s') (status : ScheduleStatus) (ho : s'.stopped = some status) :
    s'.Stopped status := by
  cases a with try cases ht
  | scan i now =>
    have hold := h status ho
    have hd : s.job.isDue now = false := by simp [ScheduledJob.isDue, hold.kept, hold.ne_active]
    refine { hold with ticks := fun j read hread => ?_ }
    obtain rfl | hj := eq_or_ne j i
    · simp [hd] at hread
    · exact hold.ticks j read (by simpa [hj] using hread)
  | claim i =>
    obtain ⟨read, hread, rfl⟩ := Option.map_eq_some_iff.1 ht
    have hold : s.Stopped status := h status (by
      simp only [claim] at ho
      split at ho <;> exact ho)
    rw [hold.claim_eq hread]
    refine { hold with ticks := fun j read' hr' => ?_ }
    obtain rfl | hj := eq_or_ne j i
    · simp at hr'
    · exact hold.ticks j read' (by simpa [hj] using hr')
  | setStatus =>
    simp only at ho
    split_ifs at ho with hc
    cases ho
    exact ⟨rfl, hc, (hk hc).1, (hk hc).2⟩
  | updateSchedule =>
    have hold := h status ho
    have hc : s.job.status ≠ .active := hold.kept ▸ hold.ne_active
    exact ⟨hold.kept, hold.ne_active, (hk hc).1, (hk hc).2⟩
  | requestImmediateFire now =>
    have hold := h status ho
    have hsa : s.job.requestImmediateFire now = none := if_neg (hold.kept ▸ hold.ne_active)
    rw [hsa]
    exact hold
  | undoClaim claim now =>
    simp only [step] at ht
    split_ifs at ht
    cases ht
    have hold := h status ho
    have hsa : s.job.undoClaim now claim = none := by
      refine if_neg fun hu => hold.moved ?_
      rw [hu.2.2.1, hu.2.2.2]
    rw [hsa]
    exact hold

/-- Where the steps are orderly, a job that was stopped keeps the status that was set and no claim
of it succeeds, until it is set active. -/
theorem stopped_stays [∀ (s : JobRun ι) a, Decidable (s.Orderly a)] {job : ScheduledJob}
    {as : List (JobAct ι)} {status : ScheduleStatus}
    (hrun : (system.guard Orderly).run (start job) as = some s)
    (hstopped : s.stopped = some status) : s.job.status = status ∧
      ∀ i next s', s.step (.claim i next) = some s' → s'.claims = s.claims := by
  have hi : ∀ status, s.stopped = some status → s.Stopped status := by
    refine StepSystem.run_guard_invariant _ (I := fun s => ∀ status, s.stopped = some status →
      s.Stopped status) (fun s a s' h ho ht => ?_) (fun _ hnone => by cases hnone) hrun
    exact stopped_step h ho ht
  have h := hi status hstopped
  refine ⟨h.kept, fun i next s' ht => ?_⟩
  obtain ⟨read, hread, rfl⟩ := Option.map_eq_some_iff.1 ht
  rw [h.claim_eq hread]

instance [Fintype ι] (s : JobRun ι) (a) : Decidable (s.Orderly a) := by
  unfold Orderly
  split <;> infer_instance

/-- A job that is claimed, paused, retuned and not claimed again. -/
theorem stopped_stays_paused :
    ∃ s : JobRun Bool, (system.guard Orderly).run (start ⟨.active, some 10, none, 0⟩)
      [.scan true 12, .claim true (some 20), .setStatus .paused 15, .updateSchedule (some 18) 16,
        .scan false 30] = some s ∧ s.job.status = .paused ∧
        ∀ i next s', s.step (.claim i next) = some s' → s'.claims = s.claims := by
  refine (StepSystem.exists_run_of_any _ (p := fun s => s.stopped = some .paused) ?_).imp
    fun s h => ⟨h.1, stopped_stays h.1 h.2⟩
  decide +kernel

/-- A tick that read the job before it was paused claims it afterwards, and the job is active. -/
theorem claimed_while_paused : ∃ s s' : JobRun Bool, system.run (start ⟨.active, some 10, none, 0⟩)
      [.scan true 12, .setStatus .paused 13] = some s ∧
      s.stopped = some .paused ∧ s.step (.claim true (some 20)) = some s' ∧
      s'.claims = [⟨10, 12, some 20, .active⟩] ∧ s'.job.status = .active :=
  ⟨_, _, rfl, rfl, rfl, rfl, rfl⟩

end JobRun

end ThreeTears
