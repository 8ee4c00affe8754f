import ThreeTears.Collections.EpochOrder
import ThreeTears.Lib.KvRequest
import ThreeTears.Snapshot.Pointers

/-!
# Publishing and sweeping a scoped snapshot

Replicas write a scope's chunks to the object store under a claim on their epoch and then move the
scope's pointer by compare-and-set. Stages whose pointer is behind are kept and carried on later.
Sweeps delete the chunks that no pointer, kept stage or claim speaks for. A call may go on, raise or
die at each await, and a request that it sent may be served after that.
-/

namespace ThreeTears

variable {K T D ι ρ κ ς : Type*}

/-- What a chunk's name says. The variant tells apart the chunks of one epoch with other rows. -/
structure ChunkName (K T : Type*) where
  scope : K
  epoch : Nat
  table : T
  piece : Bool
  variant : Nat
  deriving DecidableEq

structure SnapshotSetup (K T : Type*) where
  whole : K
  tables : List T
  complete : ∀ t, t ∈ tables
  compactPieces : Nat
  compactBytes : Nat
  diffable : Bool

def casAttempts : Nat := 16

abbrev ScopePointer (K T : Type*) := Pointer T (ChunkName K T)

abbrev ScopeRecord (K T : Type*) := StageRecord T (ChunkName K T)

abbrev ScopeChunk (K T : Type*) := ChunkWrite (ChunkName K T)

inductive WriteKind
  | carry
  | piece
  | whole
  deriving DecidableEq

/-- The arguments of `_write_scope`: `moveFrom` is the entry the pointer moves from, if only from
that. -/
structure ScopeWrite (K T : Type*) where
  epoch : Nat
  kinds : T → WriteKind
  base : Option (ScopePointer K T)
  moveFrom : Option (Option Nat)

structure StagedJob (K T : Type*) where
  stage : StagedScope T (ChunkName K T)
  carryAt : Nat
  whole : Bool
  kept : Bool
  filled : Option (ScopePointer K T)

inductive OnLost (K T : Type*)
  | retry (attempts : Nat)
  | ends
  | again (job : StagedJob K T) (attempts : Nat)
  | carry (upto : Nat) (left : List (ScopeRecord K T)) (attempts : Nat)

inductive KeptFor (K T : Type*)
  | stage (job : StagedJob K T) (attempts : Nat) (current : ScopePointer K T) (revision : Nat)
  | carry (upto : Nat)

inductive PublishPc (K T : Type*)
  | readingL3 (recovers : Bool)
  | publishing (epoch : Nat)
  | adding (epoch after : Nat) (added : T → Bool)
  | folding
  | claiming (w : ScopeWrite K T)
  | writing (w : ScopeWrite K T) (done : T → Option (ScopeChunk K T))
  | confirming (p : ScopePointer K T) (left : List (ChunkName K T))
      (moveFrom : Option (Option Nat)) (onLost : OnLost K T)
  | moving (p : ScopePointer K T) (attempts : Nat)
  | swapping (p : ScopePointer K T) (revision : Option Nat) (onLost : OnLost K T)
  | releasing
  | ended
  | claimingStage (epoch : Nat) (kinds : T → Option Bool)
  | staging (epoch : Nat) (kinds : T → Option Bool) (done : T → Option (ScopeChunk K T))
  | staged (stage : StagedScope T (ChunkName K T))
  | checking (job : StagedJob K T) (left : List (ChunkName K T))
  | trying (job : StagedJob K T) (attempts : Nat)
  | listing (use : KeptFor K T)
  | getting (use : KeptFor K T) (keys : List Nat) (got : List (ScopeRecord K T))
  | completing (job : StagedJob K T) (attempts : Nat) (entry : Option (ScopePointer K T × Nat))
      (got : List (ScopeRecord K T))
  | keeping (job : StagedJob K T) (attempts : Nat) (revision : Option Nat)
  | filling (job : StagedJob K T) (attempts : Nat) (revision : Option Nat)
  | resting (job : StagedJob K T) (attempts : Nat) (revision : Option Nat) (fills : Bool)
      (done : T → Option (ScopeChunk K T))
  | startingCarry
  | carrying (upto : Nat) (left : List (ScopeRecord K T)) (attempts : Nat)
  | dropping (reached : List (ScopeRecord K T)) (current : ScopePointer K T) (revision upto : Nat)
      (left : List (ScopeRecord K T)) (attempts : Nat)
  | discarding (epoch : Nat)
  | dead (request : Option (ScopePointer K T × Option Nat))

inductive PublishStart (T : Type*)
  | publish (epoch : Nat)
  | publishAdded (epoch after : Nat) (added : T → Bool)
  | rebuild
  | recover
  | fold
  | carry
  | stage (epoch : Nat) (kinds : T → Option Bool)

inductive PublishAct (T : Type*)
  | readL3
  | read
  | hold
  | put (t : T) (variant rows size : Nat)
  | assemble
  | exist
  | serve
  | release
  | recordStaged (base : Nat)
  | publishStaged (carryAt : Nat) (whole : Bool)
  | discardStaged
  | list
  | get
  | complete (fresh publishing : Bool)
  | keep (ok : Bool)
  | fill (settled : Bool)
  | drop
  | giveUp
  | die
  | vanish

inductive PublishEffect (K T : Type*)
  | quiet
  | claim (epoch : Nat)
  | release
  | put (name : ChunkName K T)
  | move (kv : KvKey (ScopePointer K T))
  | keep (record : ScopeRecord K T)
  | drop (epoch : Nat)

/-- What a call can see: its scope's epoch in L3, pointer and kept stages, the object store, and its
replica's L1 of the scope. -/
structure ScopeView (K T : Type*) where
  scope : K
  committed : Nat
  pointer : KvKey (ScopePointer K T)
  records : List (ScopeRecord K T)
  store : List (ChunkName K T)
  applied : Option (ScopePointer K T)

def PublishStart.pc : PublishStart T → PublishPc K T
  | .publish epoch => .publishing epoch
  | .publishAdded epoch after added => .adding epoch after added
  | .rebuild => .readingL3 false
  | .recover => .readingL3 true
  | .fold => .folding
  | .carry => .startingCarry
  | .stage epoch kinds => .claimingStage epoch kinds

namespace SnapshotSetup

variable (x : SnapshotSetup K T)

def names (p : ScopePointer K T) : List (ChunkName K T) :=
  x.tables.flatMap fun t => (p.tables t).names

def stageNames (tables : T → Option (ScopeChunk K T)) : List (ChunkName K T) :=
  x.tables.filterMap fun t => (tables t).map ChunkWrite.name

def Due (pieces : List (Piece (ChunkName K T))) : Prop :=
  pieces ≠ [] ∧ (x.compactPieces ≤ pieces.length ∨ x.compactBytes ≤ (pieces.map Piece.size).sum)
deriving Decidable

end SnapshotSetup

namespace ScopeWrite

def all (epoch : Nat) : ScopeWrite K T := ⟨epoch, fun _ => .whole, none, none⟩

/-- A table's chain once its chunk is written; `none` where it is not, or there is no chain to carry
or append to. -/
def chain (w : ScopeWrite K T) (done : T → Option (ScopeChunk K T)) (t : T) :
    Option (Chain (ChunkName K T)) :=
  match w.kinds t with
  | .carry => w.base.map fun p => p.tables t
  | .piece => w.base.bind fun p => (done t).map ((p.tables t).append w.epoch)
  | .whole => (done t).map .whole

def assembled [Fintype T] (w : ScopeWrite K T) (done : T → Option (ScopeChunk K T)) :
    Option (ScopePointer K T) := Pointer.ofChains w.epoch (w.chain done)

end ScopeWrite

namespace StagedJob

def own (job : StagedJob K T) : ScopeRecord K T := .of job.stage job.carryAt

/-- The table is written again for the stage: one it left out, or to fill it also one that it
appended to. -/
def rewrites (job : StagedJob K T) (fills : Bool) (t : T) : Bool :=
  match job.stage.tables t with
  | some w => fills && w.piece
  | none => true

def rested [Fintype T] (job : StagedJob K T) (fills : Bool) (done : T → Option (ScopeChunk K T)) :
    Option (ScopePointer K T) :=
  if fills then job.stage.filled done else job.stage.newScope done

end StagedJob

namespace ScopeView

variable (x : SnapshotSetup K T) (v : ScopeView K T)

def readL3 : PublishPc K T → Option (PublishPc K T)
  | .readingL3 false => some (.publishing v.committed)
  | .readingL3 true => some (.claiming (.all v.committed))
  | .startingCarry => some (.listing (.carry v.committed))
  | _ => none

variable [Fintype T] [DecidableEq K] [DecidableEq T]

/-- `_publish_locked`: nothing moves below the scope's epoch. -/
def publishes (epoch : Nat) : PublishPc K T :=
  if (∃ p ∈ v.pointer.value, epoch < p.epoch) ∨ ∃ p ∈ v.applied, epoch < p.epoch then .releasing
  else .claiming (.all epoch)

/-- The scope is new, or its pointer is at `after` on the chain that this L1 holds. -/
def OnChain (after : Nat) : Prop :=
  v.pointer.value = none ∧ v.applied = none ∧ after = 0 ∨
    ∃ p ∈ v.pointer.value, p.epoch = after ∧
      ∃ q ∈ v.applied, q.epoch = after ∧ ∀ t, (p.tables t).Same (q.tables t)

instance (after) : Decidable (v.OnChain after) :=
  decidable_of_iff (v.pointer.value.isNone = true ∧ v.applied.isNone = true ∧ after = 0 ∨
    ∃ p ∈ v.pointer.value, p.epoch = after ∧
      ∃ q ∈ v.applied, q.epoch = after ∧ ∀ t, (p.tables t).Same (q.tables t)) (by simp [OnChain])

/-- `_publish_added_locked`: the added rows follow the chain at `after`. -/
def adds (epoch after : Nat) (added : T → Bool) : PublishPc K T :=
  if (∃ p ∈ v.pointer.value, epoch ≤ p.epoch) ∨ ∃ p ∈ v.applied, epoch ≤ p.epoch then .releasing
  else if v.OnChain after then
    .claiming {
      epoch := epoch
      kinds := fun t => if added t && v.pointer.value.isSome then .piece else .whole
      base := v.pointer.value
      moveFrom := some (v.pointer.getEntry.map Prod.snd) }
  else .releasing

/-- `_compact`: the tables whose pieces are due get a new base at the pointer's epoch. -/
def folds : PublishPc K T :=
  match v.pointer.getEntry with
  | none => .releasing
  | some (p, revision) =>
    if ∃ t, x.Due (p.tables t).pieces then
      .claiming {
        epoch := p.epoch
        kinds := fun t => if x.Due (p.tables t).pieces then .whole else .carry
        base := some p
        moveFrom := some (some revision) }
    else .releasing

def read : PublishPc K T → Option (PublishPc K T)
  | .publishing epoch => some (v.publishes epoch)
  | .adding epoch after added => some (v.adds epoch after added)
  | .folding => some (v.folds x)
  | .moving _ 0 => some .releasing
  | .moving p (attempts + 1) =>
    if p.Supersedes v.pointer.value then
      some (.swapping p (v.pointer.getEntry.map Prod.snd) (.retry attempts))
    else some .releasing
  | .trying _ 0 => some .releasing
  | .trying job (attempts + 1) =>
    match v.pointer.getEntry with
    | none => some (.completing job attempts none [])
    | some (p, revision) =>
      if job.stage.epoch ≤ p.epoch then some .releasing
      else if p.epoch < job.carryAt then some (.listing (.stage job attempts p revision))
      else some (.completing job attempts (some (p, revision)) [])
  | .carrying _ [] _ | .carrying _ _ 0 => some .releasing
  | .carrying upto (r :: left) (attempts + 1) =>
    match v.pointer.getEntry with
    | none => some .releasing
    | some (p, revision) =>
      some (.dropping ((r :: left).filter (·.epoch ≤ p.epoch)) p revision upto
        ((r :: left).filter (p.epoch < ·.epoch)) attempts)
  | _ => none

def hold : PublishPc K T → Option (PublishPc K T × PublishEffect K T)
  | .claiming w => some (.writing w fun _ => none, .claim w.epoch)
  | .claimingStage epoch kinds => some (.staging epoch kinds fun _ => none, .claim epoch)
  | _ => none

def put (t : T) (variant rows size : Nat) :
    PublishPc K T → Option (PublishPc K T × PublishEffect K T)
  | .writing w done =>
    let piece := w.kinds t = .piece
    let name : ChunkName K T := ⟨v.scope, w.epoch, t, piece, variant⟩
    if w.kinds t ≠ .carry ∧ (done t).isNone then
      some (.writing w (Function.update done t (some ⟨name, rows, size, piece⟩)), .put name)
    else none
  | .staging epoch kinds done =>
    match kinds t with
    | none => none
    | some piece =>
      let name : ChunkName K T := ⟨v.scope, epoch, t, piece, variant⟩
      if (done t).isNone then
        some (.staging epoch kinds (Function.update done t (some ⟨name, rows, size, piece⟩)),
          .put name)
      else none
  | .resting job attempts revision fills done =>
    let name : ChunkName K T := ⟨v.scope, job.stage.epoch, t, false, variant⟩
    if job.rewrites fills t ∧ (done t).isNone then
      some (.resting job attempts revision fills
        (Function.update done t (some ⟨name, rows, size, false⟩)), .put name)
    else none
  | _ => none

def assemble : PublishPc K T → Option (PublishPc K T)
  | .writing w done =>
    (w.assembled done).map fun p =>
      .confirming p (x.names p) w.moveFrom
        (if w.moveFrom.isNone then .retry casAttempts else .ends)
  | .staging epoch kinds done =>
    if ∀ t, (kinds t).isSome = (done t).isSome then some (.staged ⟨epoch, done⟩) else none
  | .resting job attempts revision fills done =>
    (job.rested fills done).map fun p =>
      -- the chunks of a pointer that was filled are not looked for
      if fills then .swapping p revision (.again { job with filled := some p } attempts)
      else .confirming p (x.names p) (some revision) (.again job attempts)
  | _ => none

def missing (revision : Option Nat) : OnLost K T → PublishPc K T
  | .again job attempts => .filling job attempts revision
  | _ => .releasing

def confirmed (p : ScopePointer K T) (moveFrom : Option (Option Nat)) (onLost : OnLost K T) :
    PublishPc K T :=
  match moveFrom, onLost with
  | some revision, _ => .swapping p revision onLost
  | none, .retry attempts => .moving p attempts
  | none, _ => .releasing

def exist : PublishPc K T → Option (PublishPc K T)
  | .confirming p (n :: left) moveFrom onLost =>
    some (if n ∈ v.store then .confirming p left moveFrom onLost
      else missing (moveFrom.getD none) onLost)
  | .confirming p [] moveFrom onLost => some (confirmed p moveFrom onLost)
  | .checking job (n :: left) => some (if n ∈ v.store then .checking job left else .releasing)
  | .checking job [] => some (.trying job casAttempts)
  | _ => none

def taken : OnLost K T → PublishPc K T
  | .carry upto left attempts => .carrying upto left attempts
  | _ => .releasing

def lost (p : ScopePointer K T) : OnLost K T → PublishPc K T
  | .retry attempts => .moving p attempts
  | .ends => .releasing
  | .again job attempts => .trying job attempts
  | .carry upto left attempts => .carrying upto left attempts

def serve : PublishPc K T → Option (PublishPc K T × PublishEffect K T)
  | .swapping p revision onLost =>
    match v.pointer.swap p revision with
    | some kv => some (taken onLost, .move kv)
    | none => some (lost p onLost, .quiet)
  | .dead (some (p, revision)) =>
    match v.pointer.swap p revision with
    | some kv => some (.dead none, .move kv)
    | none => some (.dead none, .quiet)
  | _ => none

def release : PublishPc K T → Option (PublishPc K T × PublishEffect K T)
  | .releasing => some (.ended, .release)
  | _ => none

def recordStaged (base : Nat) : PublishPc K T → Option (PublishPc K T × PublishEffect K T)
  | .staged stage => some (.staged stage, .keep (.of stage base))
  | _ => none

def publishStaged (carryAt : Nat) (whole : Bool) : PublishPc K T → Option (PublishPc K T)
  | .staged stage =>
    if stage.Whole then
      (stage.newScope fun _ => none).map fun p =>
        .confirming p (x.names p) none (.retry casAttempts)
    else some (.checking ⟨stage, carryAt, whole, false, none⟩ (x.stageNames stage.tables))
  | _ => none

def discardStaged : PublishPc K T → Option (PublishPc K T)
  | .staged stage => some (.discarding stage.epoch)
  | _ => none

def list : PublishPc K T → Option (PublishPc K T)
  | .listing use => some (.getting use (v.records.map StageRecord.epoch) [])
  | _ => none

def get : PublishPc K T → Option (PublishPc K T)
  | .getting use (epoch :: keys) got =>
    some (.getting use keys (got ++ (v.records.find? (·.epoch = epoch)).toList))
  | .getting (.stage job attempts p revision) [] got =>
    some (.completing job attempts (some (p, revision)) got)
  | .getting (.carry upto) [] got => some (.carrying upto got casAttempts)
  | _ => none

/-- A stage that its scope's pointer cannot carry: it is kept, waits, or is filled from L3. -/
def stuck (job : StagedJob K T) (attempts : Nat) (p : ScopePointer K T) (revision : Nat)
    (got : List (ScopeRecord K T)) (publishing : Bool) : PublishPc K T :=
  if p.epoch < job.carryAt then
    if job.kept then
      if (Pointer.awaited job.carryAt got p.epoch).isSome && publishing then .releasing
      else .filling job attempts (some revision)
    else .keeping job attempts (some revision)
  else .filling job attempts (some revision)

def complete (fresh publishing : Bool) : PublishPc K T → Option (PublishPc K T)
  | .completing job attempts none _ =>
    some (if job.carryAt = 0 ∧ (job.whole || fresh) then
      .resting job attempts none false fun _ => none
    else .filling job attempts none)
  | .completing job attempts (some (p, revision)) got =>
    match Pointer.completed job.own (some p) got none with
    | some q => some (.confirming q (x.names q) (some (some revision)) (.again job attempts))
    | none => some (stuck job attempts p revision got publishing)
  | _ => none

def keep (ok : Bool) : PublishPc K T → Option (PublishPc K T × PublishEffect K T)
  | .keeping job attempts revision =>
    some (if ok then (.trying { job with kept := true } attempts, .keep job.own)
      else (.filling job attempts revision, .quiet))
  | _ => none

/-- The tables that a stage left out are read from L3 while it holds the scope at the stage's epoch,
once for the stage. -/
def fill (settled : Bool) : PublishPc K T → Option (PublishPc K T)
  | .filling job attempts revision =>
    if x.diffable then some .releasing
    else
      match job.filled with
      | some p => some (.swapping p revision (.again job attempts))
      | none =>
        if settled ∧ v.committed = job.stage.epoch then
          some (.resting job attempts revision true fun _ => none)
        else some .releasing
  | _ => none

/-- Kept stages are dropped: those that the pointer reached, before it is carried on, or that of a
stage given back. -/
def drop : PublishPc K T → Option (PublishPc K T × PublishEffect K T)
  | .dropping (r :: reached) p revision upto left attempts =>
    some (.dropping reached p revision upto left attempts, .drop r.epoch)
  | .dropping [] p revision upto left attempts =>
    let target := p.chained left (some upto)
    some (if (p.chainStep left (some upto)).isSome then
      .confirming target (x.names target) (some (some revision)) (.carry upto left attempts)
    else .releasing, .quiet)
  | .discarding epoch => some (.releasing, .drop epoch)
  | _ => none

def giveUp : PublishPc K T → Option (PublishPc K T)
  | .swapping _ _ _ | .ended | .dead _ => none
  | _ => some .releasing

def die : PublishPc K T → Option (PublishPc K T)
  | .swapping p revision _ => some (.dead (some (p, revision)))
  | .ended | .dead _ => none
  | _ => some (.dead none)

def vanish : PublishPc K T → Option (PublishPc K T)
  | .dead (some _) => some (.dead none)
  | _ => none

def next (pc : PublishPc K T) : PublishAct T → Option (PublishPc K T × PublishEffect K T)
  | .readL3 => (v.readL3 pc).map (·, .quiet)
  | .read => (v.read x pc).map (·, .quiet)
  | .hold => hold pc
  | .put t variant rows size => v.put t variant rows size pc
  | .assemble => (assemble x pc).map (·, .quiet)
  | .exist => (v.exist pc).map (·, .quiet)
  | .serve => v.serve pc
  | .release => release pc
  | .recordStaged base => recordStaged base pc
  | .publishStaged carryAt whole => (publishStaged x carryAt whole pc).map (·, .quiet)
  | .discardStaged => (discardStaged pc).map (·, .quiet)
  | .list => (v.list pc).map (·, .quiet)
  | .get => (v.get pc).map (·, .quiet)
  | .complete fresh publishing => (complete x fresh publishing pc).map (·, .quiet)
  | .keep ok => keep ok pc
  | .fill settled => (v.fill x settled pc).map (·, .quiet)
  | .drop => drop x pc
  | .giveUp => (giveUp pc).map (·, .quiet)
  | .die => (die pc).map (·, .quiet)
  | .vanish => (vanish pc).map (·, .quiet)

end ScopeView

end ThreeTears
