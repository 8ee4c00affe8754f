import ThreeTears.Collections.Generation
import ThreeTears.Lib.Gather

/-!
# Transactions a caller ends

Writes on a caller's connection are enrolled with the `CallerTransaction` open on it. When the
outermost one has ended, every collection instance evicts the keys it wrote, advances its table's
write generation and publishes one message a key, stamped with the generation and the number of rows
the advance covers. Instances of one table share one advance.

Instances are compared by identity, so they are names `ι`. What the generation sources and the bus
answer is the `World`.
-/

namespace ThreeTears

/-- A class's `write_generation`. -/
inductive WriteGeneration
  | kept
  | keptInL2
  | notKept
  deriving DecidableEq

/-- The `nats_client` a collection was built with. -/
inductive NatsClient
  | client
  | missing
  | noL2
  deriving DecidableEq

/-- What a collection instance reads of itself while it settles. -/
structure CollectionInstance where
  tableName : Text
  writeGeneration : WriteGeneration
  natsClient : NatsClient
  generationSource : Bool
  cachesAbsences : Bool
  invalidationColumns : List Text

namespace CollectionInstance

def hasClient (i : CollectionInstance) : Bool := i.natsClient = .client

def writeGenerationOn (i : CollectionInstance) : Bool :=
  i.writeGeneration = .kept && i.natsClient ≠ .noL2 && i.generationSource

def keepsWriteGenerationInL2 (i : CollectionInstance) : Bool :=
  i.writeGeneration = .keptInL2 && i.hasClient

end CollectionInstance

namespace CallerTransaction

abbrev Row := Dict Text (Option Text)

structure Enrolled (ι Key : Type*) where
  collection : ι
  entityId : Key
  row : Option Row

inductive Write (ι Key : Type*)
  | enroll (collection : ι) (entityId : Key) (row : Option Row)
  | restate (collection : ι) (entityId : Key) (row : Row)

/-- How the body and the connection's transaction ended. -/
inductive Ending
  | committed
  | commitFailed
  | bodyRaised
  deriving DecidableEq

/-- What a generation source answers to `advance`. -/
inductive Answer
  | token (token : Text)
  | nothing
  | notCommitted
  | unavailable
  deriving DecidableEq

inductive Failure
  | notCommitted
  | unavailable
  | unadvanced
  deriving DecidableEq

structure Stamp where
  token : Text
  call : Nat
  deriving DecidableEq

structure Bump where
  token : Option Stamp
  rows : Option Nat
  failure : Option Failure
  deriving DecidableEq

/-- `_NO_BUMP`. -/
def Bump.no : Bump := ⟨none, none, none⟩

structure SharedAdvance where
  rows : Nat
  bump : Option Bump

/-- One row's `CacheInvalidationMessage`. -/
structure Message (Key : Type*) where
  tableName : Text
  entityId : Key
  generation : Option Stamp
  bumpRows : Option Nat
  columns : Option Row

/-- An advance is asked of the registry's source, or made on its table's key in L2 by the instance
named. -/
inductive Advance (ι : Type*)
  | source (tableName : Text)
  | l2 (collection : ι)
  deriving DecidableEq

inductive Event (ι Key : Type*)
  | advanced (advance : Advance ι) (call : Nat)
  | deletedL2 (collection : ι) (entityId : Key)
  | published (message : Message Key)

structure World where
  answer : Nat → Answer
  l2Answer : Nat → Option Text
  sends : Nat → Bool

/-- A settling transaction, with the shared advances of its context. -/
structure Settling (ι Key : Type*) where
  shared : Text → Option SharedAdvance
  calls : Nat
  publishes : Nat
  log : List (Event ι Key)

variable {ι Key : Type*} [DecidableEq ι] [DecidableEq Key]

/-! ### Enrolling -/

/-- The loop of `restate`, from the latest enrollment on. -/
def restateLatest (collection : ι) (entityId : Key) (row : Row) :
    List (Enrolled ι Key) → List (Enrolled ι Key)
  | [] => []
  | e :: es =>
    if e.collection = collection ∧ e.entityId = entityId then
      ⟨collection, entityId, some row⟩ :: es
    else e :: restateLatest collection entityId row es

def restate (enrolled : List (Enrolled ι Key)) (collection : ι) (entityId : Key) (row : Row) :
    List (Enrolled ι Key) :=
  (restateLatest collection entityId row enrolled.reverse).reverse

def write (enrolled : List (Enrolled ι Key)) : Write ι Key → List (Enrolled ι Key)
  | .enroll collection entityId row => enrolled ++ [⟨collection, entityId, row⟩]
  | .restate collection entityId row => restate enrolled collection entityId row

def enrolledBy (body : List (Write ι Key)) : List (Enrolled ι Key) := body.foldl write []

/-! ### Advancing -/

variable (w : World)

/-- What `_advance_for_commit` makes of its source's answer. -/
def commitBump (i : CollectionInstance) (call rows : Nat) : Answer → Bump
  | .notCommitted => ⟨none, none, some .notCommitted⟩
  | .unavailable => ⟨none, none, some .unavailable⟩
  | .nothing => if i.cachesAbsences then ⟨none, none, some .unadvanced⟩ else .no
  | .token token =>
    -- an empty token says as little as none
    if token = [] then if i.cachesAbsences then ⟨none, none, some .unadvanced⟩ else .no
    else ⟨some ⟨token, call⟩, some rows, none⟩

def advanceForCommit (i : CollectionInstance) (rows : Nat) (s : Settling ι Key) :
    Bump × Settling ι Key :=
  (commitBump i s.calls rows (w.answer s.calls),
    { s with calls := s.calls + 1, log := s.log ++ [.advanced (.source i.tableName) s.calls] })

/-- What `_advance_l2_generation` makes of the swap's outcome. -/
def l2Bump (call rows : Nat) : Option Text → Bump
  | some token => ⟨some ⟨token, call⟩, some rows, none⟩
  | none => ⟨none, none, some .unavailable⟩

def advanceL2Generation (c : ι) (rows : Nat) (s : Settling ι Key) : Bump × Settling ι Key :=
  (l2Bump s.calls rows (w.l2Answer s.calls),
    { s with calls := s.calls + 1, log := s.log ++ [.advanced (.l2 c) s.calls] })

def bumpGeneration (c : ι) (i : CollectionInstance) (rows : Nat) (s : Settling ι Key) :
    Bump × Settling ι Key :=
  if i.keepsWriteGenerationInL2 ∧ 1 ≤ rows then advanceL2Generation w c rows s
  else if ¬ i.writeGenerationOn ∨ rows < 1 then (.no, s)
  else
    match s.shared i.tableName with
    | none => advanceForCommit w i rows s
    | some shared =>
      match shared.bump with
      | some bump => (bump, s)
      | none =>
        -- the first instance of the table to settle advances it for every instance's rows
        let (bump, s') := advanceForCommit w i shared.rows s
        (bump, { s' with
          shared :=
            Function.update s'.shared i.tableName (some { shared with bump := some bump }) })

/-! ### Publishing -/

def invalidationValues (i : CollectionInstance) (row : Option Row) : Option Row :=
  if i.invalidationColumns = [] then none
  else row.map fun r => i.invalidationColumns.foldl
    (fun columns column => match r.get column with
      | some value => columns.set column value
      | none => columns) .empty

def rowMessage (i : CollectionInstance) (bump : Bump) (e : Enrolled ι Key) : Message Key where
  tableName := i.tableName
  entityId := e.entityId
  generation := bump.token
  bumpRows := bump.rows
  columns := invalidationValues i e.row

def announceRow (i : CollectionInstance) (bump : Bump) (s : Settling ι Key) (e : Enrolled ι Key) :
    Settling ι Key :=
  { s with
    publishes := s.publishes + 1
    log := s.log ++ .deletedL2 e.collection e.entityId ::
      if w.sends s.publishes then [.published (rowMessage i bump e)] else [] }

/-- `invalidate_cache_many`, with the failure it raises at its end. -/
def invalidateCacheMany (c : ι) (i : CollectionInstance) (keys : List (Enrolled ι Key))
    (s : Settling ι Key) : Option Failure × Settling ι Key :=
  if keys = [] then (none, s)
  else
    let (bump, s') := bumpGeneration w c i keys.length s
    (bump.failure, if i.hasClient then keys.foldl (announceRow w i bump) s' else s')

/-! ### Settling -/

variable (cols : ι → CollectionInstance)

def sharedAdvances (byCollection : List (ι × List (Enrolled ι Key))) (table : Text) :
    Option SharedAdvance :=
  let counts := (byCollection.filter fun g => (cols g.1).tableName = table).map (·.2.length)
  if 1 < counts.length then some ⟨counts.sum, none⟩ else none

def settleOne (s : Option Failure × Settling ι Key) (g : ι × List (Enrolled ι Key)) :
    Option Failure × Settling ι Key :=
  let (failure, s') := invalidateCacheMany w g.1 (cols g.1) g.2 s.2
  (s.1.or failure, s')

/-- `_settle`, with the first failure to advance. -/
def settle (enrolled : List (Enrolled ι Key)) : Option Failure × Settling ι Key :=
  let byCollection := (Dict.gather Enrolled.collection enrolled).entries
  byCollection.foldl (settleOne w cols) (none, ⟨sharedAdvances cols byCollection, 0, 0, []⟩)

/-- What the end of the outermost transaction comes to. -/
structure Ended (ι Key : Type*) where
  log : List (Event ι Key)
  raised : Option Failure
  logged : Option (Nat × Bool)

/-- `__aexit__` of the outermost transaction. The body's error, and the commit's, go before a
failure to advance. -/
def aexit (enrolled : List (Enrolled ι Key)) (ending : Ending) : Ended ι Key :=
  let (failure, s) := settle w cols enrolled
  { log := s.log
    raised := if ending = .committed then failure else none
    logged := if enrolled = [] then none else some (enrolled.length, ending ≠ .bodyRaised) }

end CallerTransaction

end ThreeTears
