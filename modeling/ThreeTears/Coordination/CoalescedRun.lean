import ThreeTears.Coordination.LeaseExclusion

/-!
# Coalesced runs

A request is one key beside the lease's own. A drain holds the lease and, while a request is
recorded, deletes it at the revision it read and runs the work once; a run that is stopped has its
request recorded again. Until the run ends only the drain knows of the request.
-/

namespace ThreeTears

variable {T δ : Type*}

inductive DrainPc
  | idle
  | looking
  | holding
  | taking
  | found (revision : Nat)
  | deleted (revision : Nat) (taken : Bool)
  | running (started : Nat)
  | stopping (started : Nat) (asked ended : Bool)
  | releasing (raising : Bool)
  | dead
  deriving DecidableEq

namespace DrainPc

def covers : DrainPc → Option Nat
  | .deleted revision true => some revision
  | .running started => some started
  | .stopping started false _ => some started
  | _ => none

def sent : DrainPc → Option Nat
  | .found revision => some revision
  | _ => none

def Runs : DrainPc → Prop
  | .running _ | .stopping _ _ false => True
  | _ => False

instance (pc : DrainPc) : Decidable pc.Runs := by
  unfold DrainPc.Runs
  split <;> infer_instance

def cancelled : DrainPc → Option DrainPc
  | .looking | .holding => some .idle
  | .taking | .found _ | .deleted _ _ => some (.releasing true)
  | _ => none

end DrainPc

namespace LeaseAct

variable {ι : Type*}

/-- What may happen to a lease that `hold` gave, besides its acquisition. -/
def ofHold : LeaseAct ι → Bool
  | .acquire _ _ _ | .refresh _ _ _ | .maxHold _ => false
  | _ => true

def actor : LeaseAct ι → Option ι
  | .renew i | .expire i | .release i | .resend i | .hear i | .giveUp i => some i
  | _ => none

end LeaseAct

/-- The lease and the request key, and the drains, whose acquisitions are numbered. `asked` are the
revisions of the requests, `completed` the starts of the runs that ended of themselves. -/
structure CoalescedRun (T δ : Type*) where
  lease : LeaseRun T (δ × Nat)
  requests : KvKey Unit
  holds : δ → Nat
  drains : δ → DrainPc
  late : List Nat
  asked : List Nat
  completed : List Nat

inductive CoalescedAct (δ : Type*)
  | request
  | foreign
  | lease (a : LeaseAct (δ × Nat))
  | drain (d : δ)
  | look (d : δ)
  | held (d : δ)
  | read (d : δ)
  | delete (d : δ)
  | hear (d : δ)
  | finish (d : δ) (raised : Bool)
  | stop (d : δ) (cancelled : Bool)
  | askAgain (d : δ)
  | workEnds (d : δ)
  | stopped (d : δ)
  | left (d : δ)
  | cancel (d : δ)
  | die (d : δ)
  | land (n : Nat)

namespace CoalescedRun

def request (s : CoalescedRun T δ) : CoalescedRun T δ :=
  { s with
    requests := s.requests.put ()
    asked := (s.requests.sequence + 1) :: s.asked }

variable [DecidableEq T] [DecidableEq δ] (holder : δ → T) (ttl : Int)

abbrev pod (i : δ × Nat) : T := holder i.1

def goto (s : CoalescedRun T δ) (d : δ) (pc : DrainPc) : CoalescedRun T δ :=
  { s with drains := Function.update s.drains d pc }

def abandon (s : CoalescedRun T δ) (d : δ) (pc : DrainPc) : CoalescedRun T δ :=
  { s.goto d pc with late := (s.drains d).sent.toList ++ s.late }

def handle (s : CoalescedRun T δ) (d : δ) : Option (LeaseHandle T) := s.lease.handles (d, s.holds d)

def settled (s : CoalescedRun T δ) (d : δ) : Bool :=
  match (s.lease.calls (d, s.holds d)).pc with
  | .idle => true
  | _ => false

/-- `until_lost` has returned. -/
def leaseEnded (s : CoalescedRun T δ) (d : δ) : Bool :=
  (s.handle d).any fun h => h.lost.isSome || h.givenUp

/-- `hold` begins. -/
def hold (s : CoalescedRun T δ) (d : δ) : Option (CoalescedRun T δ) :=
  (LeaseRun.step (pod holder) s.lease (.acquire (d, s.holds d + 1) ttl (some false))).map
    fun lease =>
      { s with
        lease := lease
        holds := Function.update s.holds d (s.holds d + 1)
        drains := Function.update s.drains d .holding }

def step (s : CoalescedRun T δ) : CoalescedAct δ → Option (CoalescedRun T δ)
  | .request => some s.request
  | .foreign => some { s with requests := s.requests.foreign }
  | .lease a =>
    -- a dead process does nothing more, but what it sent may still be served
    if a.ofHold = true ∧ ∀ i ∈ a.actor, s.drains i.1 ≠ .dead then
      (LeaseRun.step (pod holder) s.lease a).map fun lease => { s with lease := lease }
    else none
  | .drain d =>
    match s.drains d with
    | .idle => some (s.goto d .looking)
    | _ => none
  | .look d =>
    match s.drains d, s.requests.value with
    | .looking, some _ => s.hold holder ttl d
    | .looking, none => some (s.goto d .idle)
    | _, _ => none
  | .held d =>
    match s.drains d with
    | .holding =>
      if s.settled d then some (s.goto d (if (s.handle d).isSome then .taking else .idle))
      else none
    | _ => none
  | .read d =>
    match s.drains d, s.requests.getEntry with
    | .taking, some (_, revision) => some (s.goto d (.found revision))
    | .taking, none => some (s.goto d (.releasing false))
    | _, _ => none
  | .delete d =>
    match s.drains d with
    | .found revision =>
      match s.requests.deleteAt revision with
      | some requests => some ({ s with requests := requests }.goto d (.deleted revision true))
      | none => some (s.goto d (.deleted revision false))
    | _ => none
  | .hear d =>
    match s.drains d with
    | .deleted _ taken => some (s.goto d (if taken then .running s.requests.sequence else .taking))
    | _ => none
  | .finish d raised =>
    match s.drains d with
    | .running started =>
      some ({ s with completed := started :: s.completed }.goto d
        (if raised then .releasing true else .taking))
    | _ => none
  | .stop d cancelled =>
    match s.drains d with
    | .running started =>
      if cancelled = true ∨ s.leaseEnded d = true then
        some (s.goto d (.stopping started false false))
      else none
    | _ => none
  | .askAgain d =>
    match s.drains d with
    | .stopping started false ended => some (s.request.goto d (.stopping started true ended))
    | _ => none
  | .workEnds d =>
    match s.drains d with
    | .stopping started asked false => some (s.goto d (.stopping started asked true))
    | _ => none
  | .stopped d =>
    match s.drains d with
    | .stopping _ true true => some (s.goto d (.releasing true))
    | _ => none
  | .left d =>
    match s.drains d with
    | .releasing raising =>
      if s.settled d = true ∧ (s.handle d).any LeaseHandle.givenUp = true then
        some (s.goto d (if raising then .idle else .looking))
      else none
    | _ => none
  | .cancel d => (s.drains d).cancelled.map (s.abandon d)
  | .die d => some (s.abandon d .dead)
  | .land n =>
    s.late[n]?.map fun revision =>
      { s with
        requests := (s.requests.deleteAt revision).getD s.requests
        late := s.late.eraseIdx n }

def system : StepSystem (CoalescedRun T δ) (CoalescedAct δ) := ⟨step holder ttl⟩

def start (now : Int) (kv : KvKey (LeaseEntry T (δ × Nat))) (requests : KvKey Unit) :
    CoalescedRun T δ where
  lease := .start now kv
  requests := requests
  holds _ := 0
  drains _ := .idle
  late := []
  asked := requests.getEntry.toList.map Prod.snd
  completed := []

/-- No drain dies or is cancelled between a delete that took a request and the end of its run, or
before a delete that takes one later; and a handle that takes an entry for its own has written it.
-/
def Keeps (s : CoalescedRun T δ) : CoalescedAct δ → Prop
  | .cancel d | .die d => (s.drains d).covers = none
  | .land n => ∀ revision ∈ s.late[n]?, s.requests.revision ≠ revision
  | .lease (.hear i) => ∀ h ∈ s.lease.handles i, ∀ answer ∈ (s.lease.calls i).answer,
      ∀ v ∈ adopted (pod holder i) h (s.lease.calls i).pc answer, v.writer = some i
  | _ => True

instance (s : CoalescedRun T δ) (a) : Decidable (s.Keeps holder a) := by
  unfold Keeps
  split <;> infer_instance

end CoalescedRun

end ThreeTears
