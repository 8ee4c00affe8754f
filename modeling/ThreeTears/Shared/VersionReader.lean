import ThreeTears.Lib.StepSystem

/-!
# The reader of the shared store's versions

A reader holds one version for the reads to come. A read that finds another one current takes a
lease on it and maps it in place of the one held, which is let go when no read of it is open. Reads,
`refresh` and `close` run on any threads, and the store publishes at any time.
-/

namespace ThreeTears

open Function

variable {ν κ : Type*}

/-- `SharedLease`: its descriptor, closed by the first `release`, and the number of calls of
`release`. -/
structure SharedLease (ν : Type*) where
  version : ν
  descriptor : Bool
  releases : ℕ
deriving DecidableEq

/-- `SharedArrowStore.lease`. -/
def SharedLease.take (version : ν) : SharedLease ν := ⟨version, true, 0⟩

def SharedLease.release (l : SharedLease ν) : SharedLease ν :=
  { l with descriptor := false, releases := l.releases + 1 }

/-- `_HeldVersion`: the lease, the number of reads that are open and whether it is handed out no
more. -/
structure HeldVersion (ν : Type*) where
  lease : SharedLease ν
  reads : ℕ
  superseded : Bool
deriving DecidableEq

namespace HeldVersion

/-- `_HeldVersion.__init__`. -/
def ofLease (l : SharedLease ν) : HeldVersion ν := ⟨l, 0, false⟩

def openRead (x : HeldVersion ν) : HeldVersion ν := { x with reads := x.reads + 1 }

def endRead (x : HeldVersion ν) : HeldVersion ν := { x with reads := x.reads - 1 }

def supersede (x : HeldVersion ν) : HeldVersion ν := { x with superseded := true }

def close (x : HeldVersion ν) : HeldVersion ν := { x with lease := x.lease.release }

end HeldVersion

/-- Where a call is. A version is named by the place of its lease among those the reader took. -/
inductive ReaderPc
  | idle
  /-- in `read`, under the lock: about to take a lease on the current version -/
  | leasing
  /-- under the lock: mapping the version, connecting to it and preparing the connection -/
  | mapping (i : ℕ)
  /-- under the lock: opening the cursor, with the version to let go after it -/
  | opening (i : ℕ) (letGo : Option ℕ)
  /-- letting the replaced version go, before the block -/
  | letting (i letGo : ℕ)
  /-- in the block -/
  | reading (i : ℕ)
  /-- closing a version that nobody reads -/
  | closing (i : ℕ)
deriving DecidableEq

namespace ReaderPc

def version : ReaderPc → Option ℕ
  | idle | leasing | mapping _ | closing _ => none
  | opening i _ | letting i _ | reading i => some i

/-- The call is not in progress: nothing is called, or the block of a read runs. -/
def Rests : ReaderPc → Prop
  | idle | reading _ => True
  | leasing | mapping _ | opening _ _ | letting _ _ | closing _ => False

instance : DecidablePred Rests := fun pc => by
  unfold Rests
  split <;> infer_instance

/-- The call opens the cursor with a replaced version still to let go. -/
def Replaces : ReaderPc → Prop
  | opening _ letGo => letGo ≠ none
  | idle | leasing | mapping _ | letting _ _ | reading _ | closing _ => False

instance : DecidablePred Replaces := fun pc => by
  unfold Replaces
  split <;> infer_instance

end ReaderPc

/-- `SharedArrowReader` with its calls, and the store's current version. -/
structure ReaderRun (ν κ : Type*) where
  current : Option ν
  versions : List (HeldVersion ν)
  held : Option ℕ
  closed : Bool
  lock : Option κ
  calls : κ → ReaderPc

inductive ReaderEvent (ν κ : Type*)
  /-- another version is current in the store, or none -/
  | publish (v : Option ν)
  | read (c : κ)
  | lease (c : κ)
  | leaseFails (c : κ)
  | mapped (c : κ)
  /-- mapping, connecting or preparing raises -/
  | mapFails (c : κ)
  | opened (c : κ)
  | openFails (c : κ)
  | letGo (c : κ)
  /-- the block of a read ends, also by an error of its own -/
  | leave (c : κ)
  | closeVersion (c : κ)
  | refresh (c : κ)
  | close (c : κ)

namespace ReaderRun

def start : ReaderRun ν κ := ⟨none, [], none, false, none, fun _ => .idle⟩

def nameOf (s : ReaderRun ν κ) (i : ℕ) : Option ν := s.versions[i]?.map (·.lease.version)

def Unread (s : ReaderRun ν κ) (i : ℕ) : Prop := ∀ x ∈ s.versions[i]?, x.reads = 0
deriving Decidable

/-- `_supersede`: the held version is handed out no more, and the caller closes it when no read of
it is open. -/
def supersede (s : ReaderRun ν κ) : ReaderRun ν κ × Option ℕ :=
  match s.held with
  | none => (s, none)
  | some h =>
    ({ s with held := none, versions := s.versions.modify h HeldVersion.supersede },
      if s.Unread h then some h else none)

/-- What a call does with the version `_supersede` returns, when that is all it has left to do. -/
def letGoPc : Option ℕ → ReaderPc
  | none => .idle
  | some i => .closing i

variable [DecidableEq ν] [DecidableEq κ]

/-- A read of version `i` is counted, and its cursor is opened next. -/
def enter (s : ReaderRun ν κ) (c : κ) (i : ℕ) (letGo : Option ℕ) : ReaderRun ν κ :=
  { s with
    versions := s.versions.modify i HeldVersion.openRead
    lock := some c
    calls := update s.calls c (.opening i letGo) }

/-- The version held, when it is `v`. -/
def heldAs (s : ReaderRun ν κ) (v : ν) : Option ℕ := s.held.filter fun h => s.nameOf h = some v

/-- `read` up to the lease: a closed reader and an empty store raise. -/
def read (s : ReaderRun ν κ) (c : κ) : ReaderRun ν κ :=
  if s.closed then s else
  match s.current with
  | none => s
  | some v =>
    match s.heldAs v with
    | some h => s.enter c h none
    | none => { s with lock := some c, calls := update s.calls c .leasing }

/-- `_supersede`, and the call that made it. -/
def letHeldGo (s : ReaderRun ν κ) (c : κ) : ReaderRun ν κ :=
  { s.supersede.1 with calls := update s.calls c (letGoPc s.supersede.2) }

def refresh (s : ReaderRun ν κ) (c : κ) : ReaderRun ν κ :=
  match s.held with
  | none => s
  | some h => if s.nameOf h = s.current then s else s.letHeldGo c

def install (s : ReaderRun ν κ) (c : κ) (i : ℕ) : ReaderRun ν κ :=
  let (t, letGo) := s.supersede
  { t with
    held := some i
    versions := t.versions.modify i fun x => .ofLease x.lease }.enter c i letGo

def leavePc (s : ReaderRun ν κ) (i : ℕ) : ReaderPc :=
  if ∃ x ∈ s.versions[i]?, x.superseded ∧ x.reads = 0 then .closing i else .idle

def step (s : ReaderRun ν κ) : ReaderEvent ν κ → Option (ReaderRun ν κ)
  | .publish v => some { s with current := v }
  | .read c => if s.lock = none ∧ s.calls c = .idle then some (s.read c) else none
  | .lease c =>
    -- the version current by now, which may not be the one that `read` found
    match s.calls c, s.current with
    | .leasing, some v =>
      some { s with
        versions := s.versions ++ [.ofLease (.take v)]
        calls := update s.calls c (.mapping s.versions.length) }
    | _, _ => none
  | .leaseFails c =>
    if s.calls c = .leasing then
      some { s with lock := none, calls := update s.calls c .idle }
    else none
  | .mapped c =>
    match s.calls c with
    | .mapping i => some (s.install c i)
    | _ => none
  | .mapFails c =>
    match s.calls c with
    | .mapping i =>
      some { s with
        versions := s.versions.modify i HeldVersion.close
        lock := none
        calls := update s.calls c .idle }
    | _ => none
  | .opened c =>
    match s.calls c with
    | .opening i none => some { s with lock := none, calls := update s.calls c (.reading i) }
    | .opening i (some l) => some { s with lock := none, calls := update s.calls c (.letting i l) }
    | _ => none
  | .openFails c =>
    -- the read is not counted any more; nothing closes the version that was to be let go
    match s.calls c with
    | .opening i _ =>
      some { s with
        versions := s.versions.modify i HeldVersion.endRead
        lock := none
        calls := update s.calls c .idle }
    | _ => none
  | .letGo c =>
    match s.calls c with
    | .letting i l =>
      some { s with
        versions := s.versions.modify l HeldVersion.close
        calls := update s.calls c (.reading i) }
    | _ => none
  | .leave c =>
    match s.calls c with
    | .reading i =>
      if s.lock = none then
        let t := { s with versions := s.versions.modify i HeldVersion.endRead }
        some { t with calls := update s.calls c (t.leavePc i) }
      else none
    | _ => none
  | .closeVersion c =>
    match s.calls c with
    | .closing i =>
      some { s with
        versions := s.versions.modify i HeldVersion.close
        calls := update s.calls c .idle }
    | _ => none
  | .refresh c => if s.lock = none ∧ s.calls c = .idle then some (s.refresh c) else none
  | .close c =>
    if s.lock = none ∧ s.calls c = .idle then some ({ s with closed := true }.letHeldGo c) else none

def reader (ν κ : Type*) [DecidableEq ν] [DecidableEq κ] :
    StepSystem (ReaderRun ν κ) (ReaderEvent ν κ) where
  step := step

/-- A cursor that fails to open is not that of a read which has a replaced version to let go. -/
def Opens (s : ReaderRun ν κ) : ReaderEvent ν κ → Prop
  | .openFails c => ¬ (s.calls c).Replaces
  | .publish _ | .read _ | .lease _ | .leaseFails _ | .mapped _ | .mapFails _ | .opened _
  | .letGo _ | .leave _ | .closeVersion _ | .refresh _ | .close _ => True

instance (s : ReaderRun ν κ) (e) : Decidable (s.Opens e) := by
  unfold Opens
  split <;> infer_instance

end ReaderRun

end ThreeTears
