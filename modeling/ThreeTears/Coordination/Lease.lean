import ThreeTears.Lib.KvRequest
import ThreeTears.Lib.StepSystem

/-!
# Leases on one key

`KVLease` keeps a lease as one entry of a revision-checked bucket: its holder and its expiry. An
acquire creates the entry or takes over an expired one, a refresh moves the expiry on at the
revision the handle remembers, a release deletes the entry at it. `HeldLease` refreshes in the
background. A call that gives up on an answer leaves a write behind that the bucket may take later,
or never.
-/

namespace ThreeTears

open Function

variable {T ι : Type*}

structure Envelope (T : Type*) where
  holder : T
  dateExpires : Int
  dateAcquired : Int
  deriving DecidableEq

/-- A stored value: the envelope that can be read in it, if any, and the acquisition whose call
wrote it. -/
structure LeaseEntry (T ι : Type*) where
  envelope : Option (Envelope T)
  writer : Option ι

inductive LossReason
  | expired
  | taken
  | renewalFailed
  | maxHold
  deriving DecidableEq

/-- What `HeldLease` keeps of a lease that it renews. -/
structure HeldLease where
  ttl : Int
  retake : Bool
  expiresAt : Int

structure LeaseHandle (T : Type*) where
  revision : Nat
  ttl : Int
  dateExpires : Int
  held : Option HeldLease
  inFlight : Option (Envelope T)
  released : Bool
  lost : Option LossReason
  givenUp : Bool

namespace LeaseHandle

def recorded (h : LeaseHandle T) : Int :=
  match h.held with
  | none => h.dateExpires
  | some held => max h.dateExpires held.expiresAt

def tell (h : LeaseHandle T) (reason : LossReason) : LeaseHandle T :=
  { h with lost := some (h.lost.getD reason) }

end LeaseHandle

/-! ### Acquiring -/

/-- One attempt of an acquire: `hold` is `none` for a bare handle, else the `retake` of the lease to
be renewed. -/
structure Attempt where
  ttl : Int
  now : Int
  hold : Option Bool

def Attempt.envelope (attempt : Attempt) (holder : T) : Envelope T :=
  ⟨holder, attempt.now + attempt.ttl, attempt.now⟩

def Attempt.handle (attempt : Attempt) (revision : Nat) : LeaseHandle T where
  revision := revision
  ttl := attempt.ttl
  dateExpires := attempt.now + attempt.ttl
  held := attempt.hold.map fun retake => ⟨attempt.ttl, retake, attempt.now + attempt.ttl⟩
  inFlight := none
  released := false
  lost := none
  givenUp := false

inductive AcquirePc
  | creating
  | rechecking
  | recreating
  | judging
  | reclaiming (revision : Nat)

def AcquirePc.request (value : LeaseEntry T ι) : AcquirePc → KvRequest (LeaseEntry T ι)
  | .creating | .recreating => .create value
  | .rechecking | .judging => .get
  | .reclaiming revision => .update value revision

/-- A call asks the bucket again, returns, or raises that the lease is lost. -/
inductive Next (π ρ : Type*)
  | ask (pc : π)
  | returned (result : ρ)
  | raised (reason : LossReason)

def tryOnce (attempt : Attempt) :
    AcquirePc → KvAnswer (LeaseEntry T ι) → Option (Next AcquirePc (Option (LeaseHandle T)))
  | .creating, .written (some r) => some (.returned (some (attempt.handle r)))
  | .creating, .written none => some (.ask .rechecking)
  | .rechecking, .entry none => some (.ask .recreating)
  | .rechecking, .entry (some _) => some (.ask .judging)
  | .recreating, .written (some r) => some (.returned (some (attempt.handle r)))
  | .recreating, .written none => some (.ask .judging)
  | .judging, .entry none => some (.returned none)
  | .judging, .entry (some (v, r)) =>
    match v.envelope with
    | none => some (.returned none)
    | some env =>
      if attempt.now < env.dateExpires then some (.returned none) else some (.ask (.reclaiming r))
  | .reclaiming _, .written (some r) => some (.returned (some (attempt.handle r)))
  | .reclaiming _, .written none => some (.returned none)
  | _, _ => none

/-! ### Refreshing -/

structure RefreshCall where
  ttl : Option Int
  adopt : Bool
  started : Option Int

inductive RefreshPc (T : Type*)
  | reading
  | swapping (payload : Envelope T) (ttl : Int) (unanswered : Option (Envelope T)) (revision : Nat)
  | rereading (payload : Envelope T) (ttl : Int) (unanswered : Envelope T)
  | reswapping (payload : Envelope T) (ttl : Int) (revision : Nat)

def RefreshPc.request (i : ι) : RefreshPc T → KvRequest (LeaseEntry T ι)
  | .reading | .rereading _ _ _ => .get
  | .swapping payload _ _ revision | .reswapping payload _ revision =>
    .update ⟨some payload, some i⟩ revision

/-- The entry is at a revision the handle has not seen, and is taken for a write of its own. -/
def LeaseHandle.Adopts [DecidableEq T] (h : LeaseHandle T) (adopt : Bool) (env : Envelope T)
    (observed : Nat) : Prop :=
  observed ≠ h.revision ∧ (adopt = true ∨ h.inFlight = some env)
deriving Decidable

def LeaseHandle.fence [DecidableEq T] (h : LeaseHandle T) (adopt : Bool) (env : Envelope T)
    (observed : Nat) : Nat :=
  if h.Adopts adopt env observed then observed else h.revision

def refreshHandle [DecidableEq T] (holder : T) (now : Int) (call : RefreshCall)
    (h : LeaseHandle T) :
    RefreshPc T → KvAnswer (LeaseEntry T ι) → Option (LeaseHandle T × Next (RefreshPc T) Unit)
  | .reading, .entry none => some (h, .raised .expired)
  | .reading, .entry (some (v, observed)) =>
    match v.envelope with
    | none => some (h, .raised .taken)
    | some env =>
      if env.holder ≠ holder then some (h, .raised .taken)
      else
        let revision := h.fence call.adopt env observed
        let unanswered := if h.Adopts call.adopt env observed then none else h.inFlight
        let ttl := call.ttl.getD h.ttl
        let payload : Envelope T := ⟨holder, now + ttl, env.dateAcquired⟩
        some ({ h with revision := revision, inFlight := some payload },
          .ask (.swapping payload ttl unanswered revision))
  | .swapping _ ttl _ _, .written (some r) | .reswapping _ ttl _, .written (some r) =>
    some ({ h with inFlight := none, revision := r, ttl := ttl }, .returned ())
  | .swapping payload ttl (some unanswered) _, .written none =>
    some ({ h with inFlight := some unanswered }, .ask (.rereading payload ttl unanswered))
  | .swapping _ _ none _, .written none => some ({ h with inFlight := none }, .raised .taken)
  | .rereading payload ttl unanswered, .entry landed =>
    match landed with
    | none => some (h, .raised .taken)
    | some (v, observed) =>
      if v.envelope = some unanswered then
        some ({ h with revision := observed, inFlight := some payload },
          .ask (.reswapping payload ttl observed))
      else some (h, .raised .taken)
  | .reswapping _ _ _, .written none => some ({ h with inFlight := none }, .raised .taken)
  | _, _ => none

def LeaseHandle.renewed (h : LeaseHandle T) (started : Int) : LeaseHandle T :=
  { h with held := h.held.map fun held => { held with expiresAt := started + held.ttl } }

def LeaseHandle.retakes (h : LeaseHandle T) (call : RefreshCall) : Option Int :=
  match h.held with
  | some held => if held.retake then call.started else none
  | none => none

/-! ### Releasing -/

inductive ReleasePc
  | reading
  | deleting (revision : Nat)

def ReleasePc.request : ReleasePc → KvRequest (LeaseEntry T ι)
  | .reading => .get
  | .deleting revision => .delete revision

def releaseHandle [DecidableEq T] (holder : T) (h : LeaseHandle T) :
    ReleasePc → KvAnswer (LeaseEntry T ι) → Option (Next ReleasePc Unit)
  | .reading, .entry none => some (.returned ())
  | .reading, .entry (some (v, observed)) =>
    match v.envelope with
    | none => some (.returned ())
    | some env =>
      if env.holder ≠ holder ∨ h.fence false env observed = 0 then some (.returned ())
      else some (.ask (.deleting (h.fence false env observed)))
  | .deleting _, .deleted _ => some (.returned ())
  | _, _ => none

inductive LeasePc (T : Type*)
  | idle
  | acquire (attempt : Attempt) (pc : AcquirePc)
  | refresh (call : RefreshCall) (pc : RefreshPc T)
  | retake (started : Int) (reason : LossReason) (payload : Envelope T)
  | release (pc : ReleasePc)

/-- What the call of acquisition `i` last asked of the bucket. -/
def LeasePc.request (holder : T) (i : ι) : LeasePc T → Option (KvRequest (LeaseEntry T ι))
  | .idle => none
  | .acquire attempt pc => some (pc.request ⟨some (attempt.envelope holder), some i⟩)
  | .refresh _ pc => some (pc.request i)
  | .retake _ _ payload => some (.create ⟨some payload, some i⟩)
  | .release pc => some pc.request

def resume [DecidableEq T] (holder : T) (now : Int) (handle : Option (LeaseHandle T)) :
    LeasePc T → KvAnswer (LeaseEntry T ι) → Option (Option (LeaseHandle T) × LeasePc T)
  | .idle, _ => none
  | .acquire attempt pc, answer =>
    (tryOnce attempt pc answer).map fun
      | .ask pc' => (handle, .acquire attempt pc')
      | .returned (some h) => (some h, .idle)
      | _ => (handle, .idle)
  | .refresh call pc, answer =>
    handle.bind fun h => (refreshHandle holder now call h pc answer).map fun
      | (h', .ask pc') => (some h', .refresh call pc')
      | (h', .returned _) => (some (call.started.elim h' h'.renewed), .idle)
      | (h', .raised reason) =>
        match h'.retakes call with
        | none => (some (h'.tell reason), .idle)
        | some started =>
          let payload : Envelope T := ⟨holder, now + h'.ttl, now⟩
          (some { h' with inFlight := some payload }, .retake started reason payload)
  | .retake started _ payload, .written (some r) =>
    handle.map fun h =>
      let h' := { h with inFlight := none, revision := r, dateExpires := payload.dateExpires }
      (some (h'.renewed started), .idle)
  | .retake _ reason _, .written none =>
    handle.map fun h => (some ({ h with inFlight := none }.tell reason), .idle)
  | .retake _ _ _, _ => none
  | .release pc, answer =>
    handle.bind fun h => (releaseHandle holder h pc answer).map fun
      | .ask pc' => (some h, .release pc')
      | _ => (some { h with released := true }, .idle)

def adopted [DecidableEq T] (holder : T) (h : LeaseHandle T) :
    LeasePc T → KvAnswer (LeaseEntry T ι) → Option (LeaseEntry T ι)
  | .refresh call .reading, .entry (some (v, observed)) =>
    v.envelope.bind fun env =>
      if env.holder = holder ∧ h.Adopts call.adopt env observed then some v else none
  | .refresh _ (.rereading _ _ unanswered), .entry (some (v, _)) =>
    if v.envelope = some unanswered then some v else none
  | .release .reading, .entry (some (v, observed)) =>
    v.envelope.bind fun env =>
      if env.holder = holder ∧ h.Adopts false env observed then some v else none
  | _, _ => none

structure LeaseCall (T ι : Type*) where
  pc : LeasePc T
  answer : Option (KvAnswer (LeaseEntry T ι))

/-- The bucket's key, every acquisition with its handle and the call it is in, and the writes that
may still reach the bucket: of calls that were given up, or sent again. -/
structure LeaseRun (T ι : Type*) where
  now : Int
  kv : KvKey (LeaseEntry T ι)
  handles : ι → Option (LeaseHandle T)
  calls : ι → LeaseCall T ι
  late : List (ι × KvRequest (LeaseEntry T ι))

inductive LeaseAct (ι : Type*)
  | tick (time : Nat)
  | lapse
  | acquire (i : ι) (ttl : Int) (hold : Option Bool)
  | refresh (i : ι) (ttl : Option Int) (adopt : Bool)
  | renew (i : ι)
  | expire (i : ι)
  | maxHold (i : ι)
  | release (i : ι)
  | serve (i : ι) (refuse : Bool)
  | resend (i : ι)
  | hear (i : ι)
  | giveUp (i : ι)
  | land (n : Nat) (refuse : Bool)

namespace LeaseRun

variable [DecidableEq T] [DecidableEq ι] (holder : ι → T)

/-- Acquisition `i` begins a call. -/
def begin (s : LeaseRun T ι) (i : ι) (handle : Option (LeaseHandle T)) (pc : LeasePc T) :
    Option (LeaseRun T ι) :=
  match (s.calls i).pc with
  | .idle => some { s with
      handles := update s.handles i handle
      calls := update s.calls i ⟨pc, none⟩ }
  | _ => none

/-- A held lease that meets the condition is lost, unless it was lost or released before. -/
def markLost (s : LeaseRun T ι) (i : ι) (reason : LossReason) (when : HeldLease → Bool) :
    Option (LeaseRun T ι) :=
  match s.handles i with
  | some h =>
    if h.lost = none ∧ h.givenUp = false ∧ h.held.any when then
      some { s with handles := update s.handles i (some (h.tell reason)) }
    else none
  | none => none

def step (s : LeaseRun T ι) : LeaseAct ι → Option (LeaseRun T ι)
  | .tick time => some { s with now := s.now + time }
  | .lapse =>
    match s.kv.value.bind LeaseEntry.envelope with
    | some env => if env.dateExpires ≤ s.now then some { s with kv := s.kv.push none } else none
    | none => none
  | .acquire i ttl hold =>
    match s.handles i with
    | none => s.begin i none (.acquire ⟨ttl, s.now, hold⟩ .creating)
    | some _ => none
  | .refresh i ttl adopt =>
    match s.handles i with
    | some h =>
      if h.held.isNone then s.begin i (some h) (.refresh ⟨ttl, adopt, none⟩ .reading) else none
    | none => none
  | .renew i =>
    match s.handles i with
    | some h =>
      match h.held with
      | some held =>
        if h.lost = none ∧ h.givenUp = false ∧ (s.now < held.expiresAt ∨ held.retake = true) then
          s.begin i (some h) (.refresh ⟨none, held.retake, some s.now⟩ .reading)
        else none
      | none => none
    | none => none
  | .expire i => s.markLost i .renewalFailed fun held =>
      held.retake = false ∧ held.expiresAt ≤ s.now
  | .maxHold i => s.markLost i .maxHold fun _ => true
  | .release i =>
    match s.handles i with
    | some h =>
      if h.released then none
      else s.begin i (some { h with givenUp := true }) (.release .reading)
    | none => none
  | .serve i refuse =>
    match (s.calls i).answer, (s.calls i).pc.request (holder i) i with
    | none, some request =>
      let served := s.kv.serve refuse request
      some { s with
        kv := served.1
        calls := update s.calls i ⟨(s.calls i).pc, some served.2⟩ }
    | _, _ => none
  | .resend i =>
    -- `_run_with_reopen` sends a write again whose first sending the bucket may have taken, or take
    match (s.calls i).answer, (s.calls i).pc.request (holder i) i with
    | none, some request =>
      if request.isWrite then some { s with late := s.late ++ [(i, request)] } else none
    | _, _ => none
  | .hear i =>
    (s.calls i).answer.bind fun answer =>
      (resume (holder i) s.now (s.handles i) (s.calls i).pc answer).map fun next =>
        { s with
          handles := update s.handles i next.1
          calls := update s.calls i ⟨next.2, none⟩ }
  | .giveUp i =>
    ((s.calls i).pc.request (holder i) i).map fun request =>
      { s with
        calls := update s.calls i ⟨.idle, none⟩
        -- a write that was not served yet may still be
        late := if (s.calls i).answer.isNone ∧ request.isWrite then s.late ++ [(i, request)]
          else s.late }
  | .land n refuse =>
    s.late[n]?.map fun sent =>
      { s with kv := (s.kv.serve refuse sent.2).1, late := s.late.eraseIdx n }

def system : StepSystem (LeaseRun T ι) (LeaseAct ι) := ⟨step holder⟩

def start (now : Int) (kv : KvKey (LeaseEntry T ι)) : LeaseRun T ι where
  now := now
  kv := kv
  handles _ := none
  calls _ := ⟨.idle, none⟩
  late := []

end LeaseRun

end ThreeTears
