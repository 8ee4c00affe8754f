import ThreeTears.Lib.AsyncLock
import ThreeTears.Lib.StepSystem

/-!
# Single flight of derived values

A `DerivedCollection` computes a missing value behind a gate, an asyncio lock that `_inflight` holds
for a key while somebody derives it, and behind the cross-pod build lock if it has one. A step is
what one task does up to its next await, at which it can be cancelled; a call that raises unwinds
the same way.
-/

namespace ThreeTears

open Function

/-- Where a `fetch_from_store` stands; `gate` is the key's gate it took, by its number, and `held`
whether it derives under the build lock. -/
inductive FlightPc
  | loading
  | queued (gate : Nat)
  | rechecking (gate : Nat)
  | locking (gate : Nat)
  | looking (gate : Nat) (held : Bool)
  | computing (gate : Nat) (held : Bool)
  | saving (gate : Nat) (held : Bool)
  | waiting (gate : Nat)
  | unlocking (gate : Nat)
  deriving DecidableEq

/-- A call on the collection: a fetch, or a `derivation_paused` before, in and after its body. -/
inductive FlightCall (K : Type*)
  | fetch (key : K) (pc : FlightPc)
  | pausing (key : K)
  | paused (key : K) (held : Bool)
  | unpausing (key : K)
  deriving DecidableEq

inductive BuildHolder (ι : Type*)
  | task (i : ι)
  | peer
  deriving DecidableEq

/-- One pod's collection: every gate made for a key, their number and the one in `_inflight`, the
build locks, the keys with a durable value, and the calls. -/
structure FlightRun (K L ι : Type*) where
  gates : K × Nat → AsyncLock ι
  made : K → Nat
  inflight : K → Option Nat
  holder : L → Option (BuildHolder ι)
  stored : K → Bool
  calls : ι → Option (FlightCall K)

/-- A call starts, goes on to its next await, is told what `compute` found or that the build lock is
held, tries once more, or is cancelled; a build lock lapses, or another pod takes it or lets it go;
a value leaves the durable tier. -/
inductive FlightAct (K L ι : Type*)
  | fetch (i : ι) (key : K)
  | pause (i : ι) (key : K)
  | go (i : ι)
  | computed (i : ι) (found : Bool)
  | refused (i : ι)
  | retry (i : ι)
  | cancel (i : ι)
  | lapse (lock : L)
  | peerTake (lock : L)
  | peerLet (lock : L)
  | drop (key : K)

namespace FlightRun

variable {K L ι : Type*} [DecidableEq K] [DecidableEq L] [DecidableEq ι]

def start : FlightRun K L ι where
  gates _ := .fresh
  made _ := 0
  inflight _ := none
  holder _ := none
  stored _ := false
  calls _ := none

variable (s : FlightRun K L ι) (i : ι) (key : K)

def setCall (call : Option (FlightCall K)) : FlightRun K L ι :=
  { s with calls := update s.calls i call }

def goTo (pc : FlightPc) : FlightRun K L ι := s.setCall i (some (.fetch key pc))

/-- The way into `_derive_single_flight`, up to the gate's first await. -/
def enter : FlightRun K L ι :=
  let gate := (s.inflight key).getD (s.made key)
  let lock := s.gates (key, gate)
  { s with
    gates := update s.gates (key, gate) (lock.acquire i)
    made := if (s.inflight key).isSome then s.made
      else update s.made key (s.made key + 1)
    inflight := update s.inflight key (some gate)
  }.goTo i key (if lock.free then .rechecking gate else .queued gate)

/-- The way out, with the gate as the task leaves it: `finally` drops whatever gate the key has if
the task's own is unlocked. -/
def leaveWith (gate : Nat) (lock : AsyncLock ι) : FlightRun K L ι :=
  { s with
    gates := update s.gates (key, gate) lock
    inflight := if lock.locked then s.inflight else update s.inflight key none
  }.setCall i none

def leave (gate : Nat) : FlightRun K L ι := s.leaveWith i key gate (s.gates (key, gate)).release

def finish (gate : Nat) (held : Bool) : FlightRun K L ι :=
  if held then s.goTo i key (.unlocking gate) else s.leave i key gate

def unlock (lock : L) : FlightRun K L ι :=
  { s with
    holder := if s.holder lock = some (.task i) then update s.holder lock none
      else s.holder }

def lockFor (lock : L) (call : FlightCall K) : FlightRun K L ι :=
  { s with holder := update s.holder lock (some (.task i)) }.setCall i (some call)

variable (buildLock : Option (K → L))

/-- A fetch runs up to its next await; what `compute` finds is an action of its own. -/
def fetchStep : FlightPc → Option (FlightRun K L ι)
  | .loading => some (if s.stored key then s.setCall i none else s.enter i key)
  | .queued gate =>
    match (s.gates (key, gate)).resume i with
    | some lock =>
      some ({ s with gates := update s.gates (key, gate) lock }.goTo i key (.rechecking gate))
    | none =>
      if (i, .cancelled) ∈ (s.gates (key, gate)).waiters then
        some (s.leaveWith i key gate ((s.gates (key, gate)).abandon i))
      else none
  | .rechecking gate =>
    if s.stored key then some (s.leave i key gate)
    else if buildLock.isNone then some (s.goTo i key (.looking gate false))
    else some (s.goTo i key (.locking gate))
  | .locking gate => buildLock.map fun lockKey =>
    if s.holder (lockKey key) = none then
      s.lockFor i (lockKey key) (.fetch key (.looking gate true))
    else s.goTo i key (.waiting gate)
  | .looking gate held =>
    some (if s.stored key then s.finish i key gate held
      else s.goTo i key (.computing gate held))
  | .computing .. => none
  | .saving gate held => some (finish { s with stored := update s.stored key true } i key gate held)
  | .waiting gate => some (if s.stored key then s.leave i key gate else s)
  | .unlocking gate => buildLock.map fun lockKey => (s.unlock i (lockKey key)).leave i key gate

def callStep : FlightCall K → Option (FlightRun K L ι)
  | .fetch key pc => s.fetchStep i key buildLock pc
  | .pausing key => buildLock.map fun lockKey =>
    if s.holder (lockKey key) = none then s.lockFor i (lockKey key) (.paused key true)
    else s.setCall i none
  | .paused key held => some (s.setCall i (if held then some (.unpausing key) else none))
  | .unpausing key => buildLock.map fun lockKey => (s.unlock i (lockKey key)).setCall i none

def cancelCall : FlightCall K → FlightRun K L ι
  | .fetch key pc =>
    match pc with
    | .loading => s.setCall i none
    | .queued gate =>
      let lock := s.gates (key, gate)
      -- a woken task raises when it runs; a waiting one is marked, and runs later
      if (lock.resume i).isSome then s.leaveWith i key gate (lock.abandon i)
      else { s with gates := update s.gates (key, gate) (lock.cancel i) }
    | .rechecking gate | .locking gate | .waiting gate | .unlocking gate => s.leave i key gate
    | .looking gate held | .computing gate held | .saving gate held => s.finish i key gate held
  | .pausing _ | .unpausing _ => s.setCall i none
  | .paused key held => s.setCall i (if held then some (.unpausing key) else none)

/-- Whether the key's gate in `_inflight` is locked. -/
def gateLocked : Bool := (s.inflight key).any fun gate => (s.gates (key, gate)).locked

def step : FlightAct K L ι → Option (FlightRun K L ι)
  | .fetch i key => if (s.calls i).isNone then some (s.goTo i key .loading) else none
  | .pause i key =>
    if (s.calls i).isNone ∧ ¬ s.gateLocked key then
      some (s.setCall i (some (if buildLock.isNone then .paused key false else .pausing key)))
    else none
  | .go i => (s.calls i).bind (s.callStep i buildLock)
  | .computed i found =>
    match s.calls i with
    | some (.fetch key (.computing gate held)) =>
      some (if found then s.goTo i key (.saving gate held) else s.finish i key gate held)
    | _ => none
  | .refused i =>
    match s.calls i with
    | some (.fetch key (.locking gate)) => some (s.goTo i key (.waiting gate))
    | some (.pausing _) => some (s.setCall i none)
    | _ => none
  | .retry i =>
    match s.calls i, buildLock with
    | some (.fetch key (.waiting gate)), some lockKey =>
      if s.holder (lockKey key) = none then
        some (s.lockFor i (lockKey key) (.fetch key (.looking gate true)))
      else some s
    | _, _ => none
  | .cancel i => (s.calls i).map (s.cancelCall i)
  | .lapse lock => some { s with holder := update s.holder lock none }
  | .peerTake lock =>
    if s.holder lock = none then
      some { s with holder := update s.holder lock (some .peer) }
    else none
  | .peerLet lock =>
    if s.holder lock = some .peer then
      some { s with holder := update s.holder lock none }
    else none
  | .drop key => some { s with stored := update s.stored key false }

end FlightRun

def derivedFlight {K L ι : Type*} [DecidableEq K] [DecidableEq L] [DecidableEq ι]
    (buildLock : Option (K → L)) : StepSystem (FlightRun K L ι) (FlightAct K L ι) where
  step s := s.step buildLock

/-! ### What keeps derivations apart -/

namespace FlightCall

variable {K : Type*}

def works : FlightCall K → Option K
  | .fetch key (.looking ..) | .fetch key (.computing ..) | .fetch key (.saving ..) => key
  | .paused key _ => key
  | _ => none

def inside : FlightCall K → Option (K × Nat)
  | .fetch key pc =>
    match pc with
    | .loading | .queued _ => none
    | .rechecking gate | .locking gate | .looking gate _ | .computing gate _ | .saving gate _
    | .waiting gate | .unlocking gate => some (key, gate)
  | _ => none

/-- Whether this is a `derivation_paused`. -/
def isPause : FlightCall K → Bool
  | .fetch .. => false
  | _ => true

end FlightCall

namespace FlightRun

variable {K L ι : Type*} [DecidableEq K] [DecidableEq L] [DecidableEq ι]

inductive Shelter
  | buildLock
  | gates

variable (s : FlightRun K L ι)

/-- Whether every gate of the key but the one in `_inflight` is idle. -/
def othersIdle (key : K) : Bool :=
  (List.range (s.made key)).all fun gate =>
    s.inflight key = some gate || !(s.gates (key, gate)).busy

def inUse (lock : L) : Bool :=
  match s.holder lock with
  | some (.task i) => (s.calls i).any (·.works.isSome)
  | _ => false

/-- With the build lock: there is one, and no task loses it while it works under it. With the gates:
a call comes to derive a key only while every gate of it but the one in `_inflight` is idle, and
nobody pauses derivations. -/
def sheltered (buildLock : Option (K → L)) (shelter : Shelter) (a : FlightAct K L ι) : Bool :=
  match shelter, a with
  | .buildLock, .lapse lock => buildLock.isSome && !s.inUse lock
  | .buildLock, _ => buildLock.isSome
  | .gates, .pause .. => false
  | .gates, .go i =>
    match s.calls i with
    | some (.fetch key .loading) => s.stored key || s.othersIdle key
    | _ => true
  | .gates, _ => true

/-- The key's `compute` is in progress in the task. -/
def Computing (i : ι) (key : K) : Prop :=
  ∃ gate held, s.calls i = some (.fetch key (.computing gate held))

def Paused (i : ι) (key : K) : Prop := ∃ held, s.calls i = some (.paused key held)

end FlightRun

end ThreeTears
