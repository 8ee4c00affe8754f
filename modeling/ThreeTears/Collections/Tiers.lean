import ThreeTears.Lib.StepSystem
import ThreeTears.Lib.KvKey
import ThreeTears.Collections.L1Fence

/-!
# The three tiers of one key

One primary key of a synchronous collection, shared by any number of processes. L3 holds the row, L2
is the key's entry in the common bucket, and each process has an L1 copy behind its own fence. The
operations of `BaseCollection` are cut at their awaits: a step is one L3 statement, which takes
effect or fails, one KV operation, or one stretch of an event loop with no await in it.
-/

namespace ThreeTears

variable {P Row ι : Type*}

/-- Where a pull-through read stands (`_pull_through_watched`). -/
inductive ReadPc (Row : Type*)
  | start
  | missed (revision : Nat) (held : Bool)
  | fetched (row : Row) (revision : Nat)
  | absent (revision : Nat) (held : Bool)
  | superseded
  | found (row : Row)
  | ending
  deriving DecidableEq

/-- Where a synchronous `save_entity` stands. -/
inductive SavePc (Row : Type*)
  | staged
  | begun (row : Row) (ticket : KeyTicket)
  | before (row : Row) (ticket : KeyTicket) (revision : Nat)
  | committed (row : Row) (ticket : KeyTicket) (revision : Nat)
  | stored (row : Row) (ticket : KeyTicket) (revision : Nat)
  | refused (row : Row) (ticket : KeyTicket)
  | written (row : Row) (ticket : KeyTicket) (landed : Bool)
  | unread (ticket : KeyTicket)
  | unreadEvicted (ticket : KeyTicket)
  | cached (ticket : KeyTicket)
  | failed (ticket : KeyTicket)
  | announcing
  deriving DecidableEq

inductive WithdrawPc
  | begun
  | changed
  | fenced
  | evicted
  | announcing
  deriving DecidableEq

/-- Where the handling of a peer's broadcast stands (`_evict_collection_row`). -/
inductive PeerPc
  | handling
  | present
  | settled
  deriving DecidableEq

/-- An operation in flight, in the process that runs it. -/
inductive Op (P Row : Type*)
  | idle
  | read (p : P) (ticket : KeyTicket) (pc : ReadPc Row)
  | save (p : P) (pc : SavePc Row)
  -- `committed` when the operation also changed L3, rather than only dropping cached copies.
  | withdraw (p : P) (committed : Bool) (pc : WithdrawPc)
  | peer (p : P) (pc : PeerPc)
  deriving DecidableEq

/-- The key's row in every tier, the broadcasts not yet delivered, the operations in flight. -/
structure Tiers (P Row ι : Type*) where
  l3 : Option Row
  l2 : KvKey Row
  l1 : P → Option Row
  fence : P → L1Fence
  mail : P → Nat
  ops : ι → Op P Row

/-- One step of the tiers; every answer that is not determined by the state is an argument. -/
inductive TierAct (P Row ι : Type*)
  | foreign
  -- the lifetime of the L2 entry has run out, on a table with an expiry column
  | lapse
  | expire (p : P)
  | readBegin (i : ι) (p : P)
  | readMarker (i : ι)
  -- `usable` unless the entry is expired, undecodable, a marker or distrusted.
  | readLookup (i : ι) (usable : Bool)
  | readFetch (i : ι) (live : Bool)
  | readSeed (i : ι)
  | readRelookup (i : ι) (usable : Bool)
  | readDrop (i : ι)
  | readAbsent (i : ι)
  | readCache (i : ι)
  | readEnd (i : ι)
  | stage (i : ι) (p : P) (row : Row)
  | saveBegin (i : ι) (p : P) (row : Row)
  | saveRevision (i : ι)
  | saveCommit (i : ι)
  | saveRefused (i : ι)
  | saveAsSent (i : ι)
  | saveReadBack (i : ι) (answers : Bool)
  | saveUpdate (i : ι)
  | saveDelete (i : ι)
  | saveCache (i : ι)
  | saveUnreadEvict (i : ι)
  | saveUnreadDelete (i : ι)
  | saveEnd (i : ι)
  | withdrawBegin (i : ι) (p : P)
  | withdrawFail (i : ι)
  | withdrawCommit (i : ι) (row : Option Row)
  | invalidate (i : ι) (p : P)
  | withdrawEvict (i : ι)
  | withdrawFence (i : ι)
  | withdrawRow (i : ι)
  | withdrawDelete (i : ι)
  | announce (i : ι)
  | deliver (i : ι) (p : P)
  | peerProbe (i : ι)
  | peerDelete (i : ι)
  | peerEvict (i : ι)

namespace Tiers

/-- Where a run starts: nothing in flight, and every cached copy is the row L3 has. -/
structure Starts (s : Tiers P Row ι) : Prop where
  idle : ∀ i, s.ops i = .idle
  mail : ∀ p, s.mail p = 0
  fence : ∀ p, s.fence p = none
  l2 : ∀ row, s.l2.value = some row → s.l3 = some row
  l1 : ∀ p row, s.l1 p = some row → s.l3 = some row

def cold (row : Option Row) : Tiers P Row ι where
  l3 := row
  l2 := KvKey.empty
  l1 _ := none
  fence _ := none
  mail _ := 0
  ops _ := .idle

lemma starts_cold (row : Option Row) : (cold row : Tiers P Row ι).Starts where
  idle _ := rfl
  mail _ := rfl
  fence _ := rfl
  l2 _ h := by cases h
  l1 _ _ h := by cases h

variable [DecidableEq P] [DecidableEq ι]

/-- Operation `i` moves on. -/
@[simps] def setOp (s : Tiers P Row ι) (i : ι) (op : Op P Row) : Tiers P Row ι :=
  { s with ops := Function.update s.ops i op }

@[simps] def setL3 (s : Tiers P Row ι) (row : Option Row) : Tiers P Row ι := { s with l3 := row }

@[simps] def setL2 (s : Tiers P Row ι) (kv : KvKey Row) : Tiers P Row ι := { s with l2 := kv }

@[simps] def setL1 (s : Tiers P Row ι) (p : P) (row : Option Row) : Tiers P Row ι :=
  { s with l1 := Function.update s.l1 p row }

@[simps] def setFence (s : Tiers P Row ι) (p : P) (f : L1Fence) : Tiers P Row ι :=
  { s with fence := Function.update s.fence p f }

/-- `_evict_l1`: the fence moves and the row leaves L1. -/
def evictL1 (s : Tiers P Row ι) (p : P) : Tiers P Row ι :=
  (s.setFence p (L1Fence.changed (s.fence p))).setL1 p none

@[simps] def publish (s : Tiers P Row ι) (p : P) : Tiers P Row ι :=
  { s with mail := fun q => if q = p then s.mail q else s.mail q + 1 }

@[simps] def take (s : Tiers P Row ι) (p : P) : Tiers P Row ι :=
  { s with mail := Function.update s.mail p (s.mail p - 1) }

/-- `still_newest` of a ticket of process `p`. -/
def newest (s : Tiers P Row ι) (p : P) (ticket : KeyTicket) : Bool :=
  L1Fence.stillNewest (s.fence p) ticket

/-- `_pull_through_watched`: a read that misses L1 looks the key up in L2, fetches the row from L3,
seeds L2 at the revision it looked up (`_seed_l2`) and caches the row while its ticket is the
newest. -/
def pullThrough (s : Tiers P Row ι) : TierAct P Row ι → Option (Tiers P Row ι)
  | .readBegin i p =>
    match s.ops i, s.l1 p with
    | .idle, none =>
      let (activity, ticket) := L1Fence.beginTicket (s.fence p) false
      some ((s.setFence p activity).setOp i (.read p ticket .start))
    | _, _ => none
  | .readMarker i =>
    match s.ops i with
    | .read p t .start => some (s.setOp i (.read p t .ending))
    | _ => none
  | .readLookup i usable =>
    match s.ops i with
    | .read p t .start =>
      match s.l2.value, usable with
      | some row, true => some (s.setOp i (.read p t (.found row)))
      | held, _ => some (s.setOp i (.read p t (.missed s.l2.revision held.isSome)))
    | _ => none
  | .readFetch i live =>
    match s.ops i with
    | .read p t (.missed revision held) =>
      match s.l3, live with
      | some row, true => some (s.setOp i (.read p t (.fetched row revision)))
      | _, _ => some (s.setOp i (.read p t (.absent revision held)))
    | _ => none
  | .readSeed i =>
    match s.ops i with
    | .read p t (.fetched row revision) =>
      match s.l2.update row revision with
      | some kv => some ((s.setL2 kv).setOp i (.read p t (.found row)))
      | none => some (s.setOp i (.read p t .superseded))
    | _ => none
  | .readRelookup i usable =>
    match s.ops i with
    | .read p t .superseded =>
      match s.l2.value, usable with
      | some row, true => some (s.setOp i (.read p t (.found row)))
      | _, _ => some (s.setOp i (.read p t .ending))
    | _ => none
  | .readDrop i =>
    match s.ops i with
    | .read p t (.absent revision true) =>
      match s.l2.deleteAt revision with
      | some kv => some ((s.setL2 kv).setOp i (.read p t .ending))
      | none => some (s.setOp i (.read p t .ending))
    | _ => none
  | .readAbsent i =>
    match s.ops i with
    | .read p t (.absent _ _) => some (s.setOp i (.read p t .ending))
    | _ => none
  | .readCache i =>
    match s.ops i with
    | .read p t (.found row) =>
      if s.newest p t then some ((s.setL1 p (some row)).setOp i (.read p t .ending))
      else some (s.setOp i (.read p t .ending))
    | _ => none
  | .readEnd i =>
    match s.ops i with
    | .read p t .ending => some ((s.setFence p (L1Fence.endTicket (s.fence p) t)).setOp i .idle)
    | _ => none
  | _ => none

/-- `save_entity`: the revision is read before the write to L3 (`_l2_revision_before_write`), the
committed row is written to L2 at it (`_write_l2_at`) or the entry deleted, and L1 gets the row
(`_cache_committed_row`) or drops its own. -/
def saveEntity (s : Tiers P Row ι) : TierAct P Row ι → Option (Tiers P Row ι)
  | .stage i p row =>
    match s.ops i with
    | .idle =>
      some (((s.setFence p (L1Fence.changed (s.fence p))).setL1 p (some row)).setOp i
        (.save p .staged))
    | _ => none
  | .saveBegin i p row =>
    let (activity, ticket) := L1Fence.beginTicket (s.fence p) true
    match s.ops i with
    | .idle => some ((s.setFence p activity).setOp i (.save p (.begun row ticket)))
    | .save q .staged =>
      if q = p then some ((s.setFence p activity).setOp i (.save p (.begun row ticket))) else none
    | _ => none
  | .saveRevision i =>
    match s.ops i with
    | .save p (.begun row t) => some (s.setOp i (.save p (.before row t s.l2.revision)))
    | _ => none
  | .saveCommit i =>
    match s.ops i with
    | .save p (.before row t revision) =>
      some ((s.setL3 (some row)).setOp i (.save p (.committed row t revision)))
    | _ => none
  | .saveRefused i =>
    match s.ops i with
    | .save p (.before _ t _) => some ((s.evictL1 p).setOp i (.save p (.failed t)))
    | _ => none
  | .saveAsSent i =>
    match s.ops i with
    | .save p (.committed row t revision) => some (s.setOp i (.save p (.stored row t revision)))
    | _ => none
  | .saveReadBack i answers =>
    match s.ops i with
    | .save p (.committed _ t revision) =>
      match s.l3, answers with
      | some row, true => some (s.setOp i (.save p (.stored row t revision)))
      | _, _ => some (s.setOp i (.save p (.unread t)))
    | _ => none
  | .saveUpdate i =>
    match s.ops i with
    | .save p (.stored row t revision) =>
      match s.l2.update row revision with
      | some kv => some ((s.setL2 kv).setOp i (.save p (.written row t true)))
      | none => some (s.setOp i (.save p (.refused row t)))
    | _ => none
  | .saveDelete i =>
    match s.ops i with
    | .save p (.refused row t) =>
      some ((s.setL2 s.l2.delete).setOp i (.save p (.written row t false)))
    | _ => none
  | .saveCache i =>
    match s.ops i with
    | .save p (.written row t landed) =>
      if landed && s.newest p t then some ((s.setL1 p (some row)).setOp i (.save p (.cached t)))
      else some ((s.evictL1 p).setOp i (.save p (.cached t)))
    | _ => none
  | .saveUnreadEvict i =>
    match s.ops i with
    | .save p (.unread t) => some ((s.evictL1 p).setOp i (.save p (.unreadEvicted t)))
    | _ => none
  | .saveUnreadDelete i =>
    match s.ops i with
    | .save p (.unreadEvicted t) => some ((s.setL2 s.l2.delete).setOp i (.save p (.cached t)))
    | _ => none
  | .saveEnd i =>
    match s.ops i with
    | .save p (.cached t) =>
      some ((s.setFence p (L1Fence.endTicket (s.fence p) t)).setOp i (.save p .announcing))
    | .save p (.failed t) => some ((s.setFence p (L1Fence.endTicket (s.fence p) t)).setOp i .idle)
    | _ => none
  | _ => none

/-- `delete` and `invalidate_cache` (`_withdraw_from_caches`): the row leaves L1 behind a move of
the fence, then L2. -/
def withdrawFromCaches (s : Tiers P Row ι) : TierAct P Row ι → Option (Tiers P Row ι)
  | .withdrawBegin i p =>
    match s.ops i with
    | .idle => some (s.setOp i (.withdraw p true .begun))
    | _ => none
  | .withdrawFail i =>
    match s.ops i with
    | .withdraw _ _ .begun => some (s.setOp i .idle)
    | _ => none
  | .withdrawCommit i row =>
    match s.ops i with
    | .withdraw p true .begun => some ((s.setL3 row).setOp i (.withdraw p true .changed))
    | _ => none
  | .invalidate i p =>
    match s.ops i with
    | .idle => some (s.setOp i (.withdraw p false .changed))
    | _ => none
  | .withdrawEvict i =>
    match s.ops i with
    | .withdraw p c .changed => some ((s.evictL1 p).setOp i (.withdraw p c .evicted))
    | _ => none
  | .withdrawFence i =>
    match s.ops i with
    | .withdraw p c .changed =>
      some ((s.setFence p (L1Fence.changed (s.fence p))).setOp i (.withdraw p c .fenced))
    | _ => none
  | .withdrawRow i =>
    match s.ops i with
    | .withdraw p c .fenced => some ((s.setL1 p none).setOp i (.withdraw p c .evicted))
    | _ => none
  | .withdrawDelete i =>
    match s.ops i with
    | .withdraw p c .evicted => some ((s.setL2 s.l2.delete).setOp i (.withdraw p c .announcing))
    | _ => none
  | _ => none

/-- `_evict_collection_row`: a process that hears of a peer's change deletes the L2 entry if it
finds one, and drops its own copy. -/
def evictCollectionRow (s : Tiers P Row ι) : TierAct P Row ι → Option (Tiers P Row ι)
  | .deliver i p =>
    match s.ops i with
    | .idle => if 0 < s.mail p then some ((s.take p).setOp i (.peer p .handling)) else none
    | _ => none
  | .peerProbe i =>
    match s.ops i with
    | .peer p .handling =>
      if s.l2.value.isSome then some (s.setOp i (.peer p .present))
      else some (s.setOp i (.peer p .settled))
    | _ => none
  | .peerDelete i =>
    match s.ops i with
    | .peer p .present => some ((s.setL2 s.l2.delete).setOp i (.peer p .settled))
    | _ => none
  | .peerEvict i =>
    match s.ops i with
    | .peer p .settled => some ((s.evictL1 p).setOp i .idle)
    | _ => none
  | _ => none

/-- One action, `none` when the operation it names is not at that point. -/
def step (s : Tiers P Row ι) : TierAct P Row ι → Option (Tiers P Row ι)
  | .foreign => some (s.setL2 s.l2.foreign)
  | .lapse => some (s.setL2 s.l2.lapse)
  | .expire p => some (s.evictL1 p)
  | .announce i =>
    match s.ops i with
    | .save p .announcing => some ((s.publish p).setOp i .idle)
    | .withdraw p _ .announcing => some ((s.publish p).setOp i .idle)
    | _ => none
  | a => ((s.pullThrough a).or (s.saveEntity a)).or
      ((s.withdrawFromCaches a).or (s.evictCollectionRow a))

def system : StepSystem (Tiers P Row ι) (TierAct P Row ι) := ⟨step⟩

end Tiers

end ThreeTears
