import ThreeTears.Lib.StepSystem
import ThreeTears.Lib.KvKey
import ThreeTears.Lib.OrderedCell
import ThreeTears.Collections.WriteBuffer

/-!
# Compare-and-swap mutations of one key

`l2_cas_mutate` for one key of a collection with an L3 pool: any number of calls, each stopping at
every await, over one bucket that may be created anew, one row of L3 and one write buffer per
replica. A call that raises stops where it stands, and withdraws its swap when the persist raised.
Every row records which swaps it was computed through.
-/

namespace ThreeTears

variable {V P ι : Type*}

/-- A row: its columns, the order it carries and, newest first, the swaps it was computed
through. -/
structure CasRow (V : Type*) where
  value : V
  order : Option L2Order
  via : List Nat

def withL2Order (row : CasRow V) (order : L2Order) : CasRow V := { row with order := some order }

/-- Where a call stands. `epoch` is the bucket's creation time as last read and `revision` the
entry's, `none` when there was no entry. -/
inductive CasPc (V : Type*)
  | idle
  | reading (epoch : Nat)
  | seeding (epoch : Nat) (revision : Option Nat)
  | regressed (stored : L2Order) (revision : Option Nat) (row : Option (CasRow V))
  | mutating (epoch : Nat) (revision : Option Nat) (row : Option (CasRow V))
  | swapping (epoch : Nat) (revision : Option Nat) (new : CasRow V)
  | won (epoch : Nat) (new : CasRow V) (revision : Nat)
  | readingBack (epoch current : Nat) (new : CasRow V) (revision : Nat)
  | persisting (row : CasRow V) (revision : Nat)
  | confirming (row : CasRow V) (revision : Nat)
  | bumping (row : CasRow V) (revision : Nat)
  | withdrawing (revision : Nat)

inductive CallAct (V P : Type*)
  | begin (epoch : Nat)
  | getEntry (usable : Bool)
  | fetchFromStore (live : Bool)
  | readEpoch
  | mutate (result : Option V)
  | swap (heard : Bool)
  | readBack
  | persist (heard : Bool)
  | defer (p : P)
  | confirm
  | finish (returned : Bool)
  | withdraw (delivered : Bool)
  | raise

inductive CasFlush (V : Type*)
  | idle
  | persisting (pw : PendingWrite (CasRow V))
  | persisted (pw : PendingWrite (CasRow V))

inductive CasFlushAct
  | drain
  | persist (heard : Bool)
  | ack
  | reEnqueue
  | drop
  | cancel

/-- The tiers. For the record: how many swaps were computed, the rows whose call returned success
with the buffer they went to (none for a synchronous persist), and the rows L3 took. -/
structure CasTiers (V P : Type*) where
  epoch : Nat
  kv : KvKey (CasRow V)
  l3 : Option (CasRow V)
  bufs : P → WriteBuffer Unit (CasRow V)
  epochsRead : List Nat
  next : Nat
  acked : List (CasRow V × Option P)
  landed : List (CasRow V)

namespace CasTiers

def write (s : CasTiers V P) (new : CasRow V) : Option Nat → Option (KvKey (CasRow V))
  | none => s.kv.create new
  | some revision => s.kv.update new revision

def saveOrderedToStore (s : CasTiers V P) (row : CasRow V) : CasTiers V P :=
  { s with
    l3 := OrderedCell.upsert CasRow.order s.l3 row
    landed := if OrderedCell.Takes CasRow.order s.l3 row then row :: s.landed else s.landed }

def succeed (s : CasTiers V P) (row : CasRow V) (buffer : Option P) : CasTiers V P :=
  { s with acked := (row, buffer) :: s.acked }

def entry (s : CasTiers V P) : Option (V × Nat) := s.kv.getEntry.map fun e => (e.1.value, e.2)

/-- `_read_l2_epoch` remembers what it read. -/
def readEpoch (s : CasTiers V P) : CasTiers V P := { s with epochsRead := s.epoch :: s.epochsRead }

def setBuf [DecidableEq P] (s : CasTiers V P) (p : P) (wb : WriteBuffer Unit (CasRow V)) :
    CasTiers V P :=
  { s with bufs := Function.update s.bufs p wb }

end CasTiers

/-- Where an exception leaves a call: only the persist is inside the `try` that withdraws. -/
def CasPc.raised : CasPc V → Option (CasPc V)
  | .persisting _ revision => some (.withdrawing revision)
  | .confirming _ revision => some (.withdrawing revision)
  | .bumping _ revision => some (.withdrawing revision)
  | .idle => none
  | _ => some .idle

/-- `_confirm_superseded`: the stored order is not older than the row's own. -/
def confirmsSuperseded (l3 : Option (CasRow V)) (row : CasRow V) : Bool :=
  match row.order, l3.bind CasRow.order with
  | some ours, some theirs => decide (ours ≤ theirs)
  | _, _ => false

/-- `_refuse_regressed_epoch` needs a fresh read: the stored epoch is later than the known one. -/
def regressedEpoch (l3 : Option (CasRow V)) (epoch : Nat) : Option L2Order :=
  (l3.bind CasRow.order).filter fun stored => epoch < stored.epoch

variable [DecidableEq V] [DecidableEq P] [DecidableEq ι]

def callStep (s : CasTiers V P) : CasPc V → CallAct V P → Option (CasTiers V P × CasPc V)
  | .idle, .begin epoch =>
    if epoch = s.epoch ∨ epoch ∈ s.epochsRead then
      some ({ s with epochsRead := epoch :: s.epochsRead }, .reading epoch)
    else none
  | .reading epoch, .getEntry usable =>
    match s.kv.getEntry with
    | none => some (s, .seeding epoch none)
    | some (row, revision) =>
      -- an entry that is no live row keeps its revision, so that the swap replaces it
      if usable then some (s, .mutating epoch (some revision) (some row))
      else some (s, .seeding epoch (some revision))
  | .seeding epoch revision, .fetchFromStore live =>
    match regressedEpoch s.l3 epoch with
    | some stored => some (s, .regressed stored revision (if live then s.l3 else none))
    | none => some (s, .mutating epoch revision (if live then s.l3 else none))
  | .regressed stored revision row, .readEpoch =>
    if s.epoch < stored.epoch then some (s.readEpoch, .idle)
    else some (s.readEpoch, .mutating s.epoch revision row)
  | .mutating epoch revision row, .mutate result =>
    match result with
    | none => some (s, .idle)
    | some value =>
      -- the L2 value is written before its revision exists, so it carries no order
      some ({ s with next := s.next + 1 },
        .swapping epoch revision ⟨value, none, s.next :: (row.map CasRow.via).getD []⟩)
  | .swapping epoch revision new, .swap heard =>
    match s.write new revision with
    | some kv =>
      -- a swap whose answer is lost is sent again, or raises
      some ({ s with kv := kv },
        if heard then .won epoch new kv.revision else .swapping epoch revision new)
    | none => if heard then some (s, .reading epoch) else none
  | .won epoch new revision, .readEpoch =>
    if s.epoch = epoch then
      some (s.readEpoch, .persisting (withL2Order new ⟨epoch, revision⟩) revision)
    else some (s.readEpoch, .readingBack epoch s.epoch new revision)
  | .readingBack epoch current new revision, .readBack =>
    if s.entry = some (new.value, revision) then
      some (s, .persisting (withL2Order new ⟨current, revision⟩) revision)
    else some (s, .persisting (withL2Order new ⟨epoch, revision⟩) revision)
  | .persisting row revision, .persist heard =>
    some (s.saveOrderedToStore row, if heard then
        if OrderedCell.Takes CasRow.order s.l3 row then .bumping row revision
        else .confirming row revision
      else .withdrawing revision)
  | .persisting row _, .defer p =>
    some ((s.setBuf p ((s.bufs p).add CasRow.order () row)).succeed row (some p), .idle)
  | .confirming row revision, .confirm =>
    if confirmsSuperseded s.l3 row then some (s.succeed row none, .idle)
    else some (s, .withdrawing revision)
  | .bumping row _, .finish returned => some (if returned then s.succeed row none else s, .idle)
  | .withdrawing revision, .withdraw delivered =>
    some ({ s with kv := if delivered then (s.kv.deleteAt revision).getD s.kv else s.kv }, .idle)
  | pc, .raise => pc.raised.map fun pc' => (s, pc')
  | _, _ => none

/-- A flush of `p`'s buffer goes on to its next await, as far as the key is concerned. -/
def casFlushStep (s : CasTiers V P) (p : P) :
    CasFlush V → CasFlushAct → Option (CasTiers V P × CasFlush V)
  | .idle, .drain =>
    some (s.setBuf p (s.bufs p).drain.1, match (s.bufs p).drain.2 with
      | [] => .idle
      | e :: _ => .persisting e.2)
  | .persisting pw, .persist heard =>
    some (s.saveOrderedToStore pw.data, if heard then .persisted pw else .persisting pw)
  | .persisted _, .ack => some (s.setBuf p ((s.bufs p).ack ()), .idle)
  | .persisting pw, .reEnqueue =>
    some (s.setBuf p ((s.bufs p).reEnqueue CasRow.order () pw.data (pw.retries + 1)).1, .idle)
  | .persisting _, .drop => some (s.setBuf p ((s.bufs p).ack ()), .idle)
  | .persisting _, .cancel => some (s, .idle)
  | .persisted _, .cancel => some (s, .idle)
  | _, _ => none

structure CasRun (V P ι : Type*) where
  tiers : CasTiers V P
  calls : ι → CasPc V
  flushes : P → ι → CasFlush V

inductive CasAct (V P ι : Type*)
  | call (i : ι) (a : CallAct V P)
  | flush (p : P) (f : ι) (a : CasFlushAct)
  | recreate (epoch : Nat)
  | lapse
  | otherKey

namespace CasRun

def step (s : CasRun V P ι) : CasAct V P ι → Option (CasRun V P ι)
  | .call i a => (callStep s.tiers (s.calls i) a).map fun next =>
      { s with tiers := next.1, calls := Function.update s.calls i next.2 }
  | .flush p f a => (casFlushStep s.tiers p (s.flushes p f) a).map fun next =>
      { s with
        tiers := next.1
        flushes := Function.update s.flushes p (Function.update (s.flushes p) f next.2) }
  | .recreate epoch =>
    if s.tiers.epoch < epoch then
      some { s with tiers := { s.tiers with epoch := epoch, kv := .empty } }
    else none
  | .lapse => some { s with tiers := { s.tiers with kv := s.tiers.kv.lapse } }
  | .otherKey => some { s with tiers := { s.tiers with kv := s.tiers.kv.foreign } }

def system : StepSystem (CasRun V P ι) (CasAct V P ι) := ⟨step⟩

def start (epoch : Nat) (l3 : Option (V × Option L2Order)) (durable : P → Bool) : CasRun V P ι where
  tiers :=
    { epoch := epoch
      kv := .empty
      l3 := l3.map fun row => ⟨row.1, row.2, []⟩
      bufs := fun p => .opened (if durable p then some .empty else none)
      epochsRead := []
      next := 0
      acked := []
      landed := [] }
  calls _ := .idle
  flushes _ _ := .idle

end CasRun

end ThreeTears
