import ThreeTears.Collections.L1Fence
import ThreeTears.Lib.KvKey
import ThreeTears.Lib.StepSystem

/-!
# Table drops

A process that missed a broadcast learns from the table's generation that some row changed, and
drops the table: its L1 rows go, and its L2 entries are not trusted until each was read through from
L3. One key of such a table is modelled, in any number of processes. Rows are written to L3 first,
and no compare-and-swap orders them.

A row carries the moment at which it is known to have been in L3. Moments count steps.
-/

namespace ThreeTears

variable {P Row ι : Type*}

structure DatedRow (Row : Type*) where
  row : Row
  moment : ℕ
deriving DecidableEq

/-- A run of `drop_cached_table`: when it ran, when the generation moved that caused it, and the
bucket's last revision by then. -/
structure TableDrop (P : Type*) where
  process : P
  cause : ℕ
  moment : ℕ
  sequence : ℕ
deriving DecidableEq

/-- What a pull-through keeps of its look at L2: the drops counted before, the key's revision and
whether it found a live row that it does not trust. -/
structure L2Look where
  drops : ℕ
  revision : ℕ
  untrusted : Bool
deriving DecidableEq

inductive PullPc (Row : Type*)
  | begun
  | judged (drops : ℕ) (distrust : Bool)
  | missed (look : L2Look)
  | fetched (look : L2Look) (x : DatedRow Row)
  | superseded (look : L2Look) (x : DatedRow Row)
  | absent (look : L2Look)
  | found (look : Option L2Look) (x : DatedRow Row)
  | settling (look : L2Look) (answer : Option (DatedRow Row))
  | probing (look : L2Look) (answer : Option (DatedRow Row))
  | ending (answer : Option (DatedRow Row))
deriving DecidableEq

/-- Where a `save_entity` is. -/
inductive CommitPc (Row : Type*)
  | begun (row : Row)
  | before (row : Row) (revision : ℕ)
  | committed (x : DatedRow Row) (revision : ℕ)
  | stored (x : DatedRow Row) (revision : ℕ)
  | refused (x : DatedRow Row)
  | written (x : DatedRow Row) (landed : Bool)
  | cached
deriving DecidableEq

/-- A call of a process, with its ticket and the moment it began. -/
inductive DropOp (P Row : Type*)
  | idle
  | pull (p : P) (ticket : KeyTicket) (startedAt : ℕ) (pc : PullPc Row)
  | save (p : P) (ticket : KeyTicket) (startedAt : ℕ) (pc : CommitPc Row)
deriving DecidableEq

structure PullAnswer (P Row : Type*) where
  process : P
  startedAt : ℕ
  row : Row
deriving DecidableEq

/-- The key in every tier. `past` is L3's row at each moment, the present one last; `spoiled` are
the revisions of L2 entries that are expired or cannot be decoded; `trusted` says whether a process
has the key in `_l2_read_through`. -/
structure DropRun (P Row ι : Type*) where
  l3 : Option Row
  l2 : KvKey (DatedRow Row)
  spoiled : List ℕ
  l1 : P → Option (DatedRow Row)
  fence : P → L1Fence
  trusted : P → Bool
  drops : List (TableDrop P)
  ops : ι → DropOp P Row
  answers : List (PullAnswer P Row)
  clock : ℕ
  past : List (Option Row)

inductive PullAct
  | judge
  | lookup
  | fetch (live : Bool)
  | seed
  | relookup
  | dropEntry
  | leaveEntry
  | cache
  | settle
  | probe

inductive SaveAct
  | revision
  | commit
  | asSent
  | readBack
  | update
  | delete
  | cache
  | fails

inductive DropEvent (P Row ι : Type*)
  | readBegin (i : ι) (p : P)
  | pull (i : ι) (a : PullAct)
  | readEnd (i : ι)
  | hit (p : P)
  | saveBegin (i : ι) (p : P) (row : Row)
  | save (i : ι) (a : SaveAct)
  | saveEnd (i : ι)
  | external (row : Option Row)
  | evict (p : P)
  | l2Delete
  | l2Lapse
  | foreign
  | spoil
  | forget (p : P)
  | drop (p : P) (cause : ℕ)

namespace DropRun

def start (row : Option Row) : DropRun P Row ι where
  l3 := row
  l2 := .empty
  spoiled := []
  l1 _ := none
  fence _ := none
  trusted _ := false
  drops := []
  ops _ := .idle
  answers := []
  clock := 0
  past := [row]

def live (s : DropRun P Row ι) : Option (DatedRow Row) :=
  if s.l2.revision ∈ s.spoiled then none else s.l2.value

variable [DecidableEq P] [DecidableEq ι]

def tableDrops (s : DropRun P Row ι) (p : P) : ℕ := (s.drops.filter (·.process = p)).length

def distrustsL2 (s : DropRun P Row ι) (p : P) : Bool := 0 < s.tableDrops p && !s.trusted p

def setOp (s : DropRun P Row ι) (i : ι) (op : DropOp P Row) : DropRun P Row ι :=
  { s with ops := Function.update s.ops i op }

def setL1 (s : DropRun P Row ι) (p : P) (x : Option (DatedRow Row)) : DropRun P Row ι :=
  { s with l1 := Function.update s.l1 p x }

def setFence (s : DropRun P Row ι) (p : P) (f : L1Fence) : DropRun P Row ι :=
  { s with fence := Function.update s.fence p f }

def setTrusted (s : DropRun P Row ι) (p : P) (b : Bool) : DropRun P Row ι :=
  { s with trusted := Function.update s.trusted p b }

def evictL1 (s : DropRun P Row ι) (p : P) : DropRun P Row ι :=
  (s.setFence p (L1Fence.changed (s.fence p))).setL1 p none

/-- `still_newest` of a ticket of process `p`. -/
def newest (s : DropRun P Row ι) (p : P) (ticket : KeyTicket) : Bool :=
  L1Fence.stillNewest (s.fence p) ticket

/-- `drop_cached_table`. -/
def dropTable (s : DropRun P Row ι) (p : P) (cause : ℕ) : DropRun P Row ι :=
  { (s.evictL1 p).setTrusted p false with
    drops := s.drops ++ [⟨p, cause, s.clock, s.l2.sequence⟩] }

def remember (s : DropRun P Row ι) (p : P) (look : L2Look) : DropRun P Row ι :=
  if look.drops = s.tableDrops p then s.setTrusted p true else s

/-- A pull-through of process `p` goes on from where it is. -/
def pullStep (s : DropRun P Row ι) (p : P) (ticket : KeyTicket) (pc : PullPc Row) :
    PullAct → Option (DropRun P Row ι × PullPc Row)
  | .judge =>
    match pc with
    | .begun => some (s, .judged (s.tableDrops p) (s.distrustsL2 p))
    | _ => none
  | .lookup =>
    match pc with
    | .judged drops distrust =>
      match s.live with
      | some x =>
        if distrust then some (s, .missed ⟨drops, s.l2.revision, true⟩)
        else some (s, .found none x)
      | none => some (s, .missed ⟨drops, s.l2.revision, false⟩)
    | _ => none
  | .fetch live =>
    match pc with
    | .missed look =>
      match s.l3, live with
      | some row, true => some (s, .fetched look ⟨row, s.clock⟩)
      | _, _ => some (s, .absent look)
    | _ => none
  | .seed =>
    match pc with
    | .fetched look x =>
      match s.l2.update x look.revision with
      | some kv => some ({ s with l2 := kv }, .found (some look) x)
      | none => some (s, .superseded look x)
    | _ => none
  | .relookup =>
    -- the second look does not ask whether L2 is trusted
    match pc with
    | .superseded look x =>
      match s.live with
      | some y => some (s, .found (some look) y)
      | none => some (s, .settling look (some x))
    | _ => none
  | .dropEntry =>
    match pc with
    | .absent look =>
      match s.l2.deleteAt look.revision with
      | some kv => some ({ s with l2 := kv }, .settling look none)
      | none => some (s, .settling look none)
    | _ => none
  | .leaveEntry =>
    match pc with
    | .absent look => some (s, .settling look none)
    | _ => none
  | .cache =>
    match pc with
    | .found look x =>
      let t := if s.newest p ticket then s.setL1 p (some x) else s
      match look with
      | none => some (t, .ending (some x))
      | some look => some (t, .settling look (some x))
    | _ => none
  | .settle =>
    match pc with
    | .settling look answer =>
      if look.drops = 0 then some (s, .ending answer)
      else if look.untrusted then some (s, .probing look answer)
      else some (s.remember p look, .ending answer)
    | _ => none
  | .probe =>
    match pc with
    | .probing look answer =>
      if s.l2.revision ≠ look.revision then some (s.remember p look, .ending answer)
      else some (s, .ending answer)
    | _ => none

/-- A save of process `p` goes on from where it is. -/
def saveStep (s : DropRun P Row ι) (p : P) (ticket : KeyTicket) (pc : CommitPc Row) :
    SaveAct → Option (DropRun P Row ι × CommitPc Row)
  | .revision =>
    match pc with
    | .begun row => some (s, .before row s.l2.revision)
    | _ => none
  | .commit =>
    match pc with
    | .before row revision =>
      some ({ s with l3 := some row }, .committed ⟨row, s.clock + 1⟩ revision)
    | _ => none
  | .asSent =>
    match pc with
    | .committed x revision => some (s, .stored x revision)
    | _ => none
  | .readBack =>
    match pc, s.l3 with
    | .committed _ revision, some row => some (s, .stored ⟨row, s.clock⟩ revision)
    | _, _ => none
  | .update =>
    match pc with
    | .stored x revision =>
      match s.l2.update x revision with
      | some kv => some ({ s with l2 := kv }, .written x true)
      | none => some (s, .refused x)
    | _ => none
  | .delete =>
    match pc with
    | .refused x => some ({ s with l2 := s.l2.delete }, .written x false)
    | _ => none
  | .cache =>
    match pc with
    | .written x landed =>
      if landed && s.newest p ticket then some (s.setL1 p (some x), .cached)
      else some (s.evictL1 p, .cached)
    | _ => none
  | .fails =>
    match pc with
    | .begun _ | .before _ _ | .committed _ _ => some (s.evictL1 p, .cached)
    | _ => none

def act (s : DropRun P Row ι) : DropEvent P Row ι → Option (DropRun P Row ι)
  | .readBegin i p =>
    match s.ops i with
    | .idle =>
      let (activity, ticket) := L1Fence.beginTicket (s.fence p) false
      some ((s.setFence p activity).setOp i (.pull p ticket s.clock .begun))
    | _ => none
  | .pull i a =>
    match s.ops i with
    | .pull p ticket startedAt pc =>
      (s.pullStep p ticket pc a).map fun r => r.1.setOp i (.pull p ticket startedAt r.2)
    | _ => none
  | .readEnd i =>
    match s.ops i with
    | .pull p ticket startedAt (.ending answer) =>
      some { (s.setFence p (L1Fence.endTicket (s.fence p) ticket)).setOp i .idle with
        answers := s.answers ++ (answer.map fun x => ⟨p, startedAt, x.row⟩).toList }
    | _ => none
  | .hit p =>
    match s.l1 p with
    | some x => some { s with answers := s.answers ++ [⟨p, s.clock, x.row⟩] }
    | none => none
  | .saveBegin i p row =>
    match s.ops i with
    | .idle =>
      let (activity, ticket) := L1Fence.beginTicket (s.fence p) true
      some ((s.setFence p activity).setOp i (.save p ticket s.clock (.begun row)))
    | _ => none
  | .save i a =>
    match s.ops i with
    | .save p ticket startedAt pc =>
      (s.saveStep p ticket pc a).map fun r => r.1.setOp i (.save p ticket startedAt r.2)
    | _ => none
  | .saveEnd i =>
    match s.ops i with
    | .save p ticket _ .cached =>
      some ((s.setFence p (L1Fence.endTicket (s.fence p) ticket)).setOp i .idle)
    | _ => none
  | .external row => some { s with l3 := row }
  | .evict p => some (s.evictL1 p)
  | .l2Delete => some { s with l2 := s.l2.delete }
  | .l2Lapse => some { s with l2 := s.l2.lapse }
  | .foreign => some { s with l2 := s.l2.foreign }
  | .spoil => some { s with spoiled := s.l2.revision :: s.spoiled }
  | .forget p => some (s.setTrusted p false)
  | .drop p cause => if cause ≤ s.clock then some (s.dropTable p cause) else none

def step (s : DropRun P Row ι) (e : DropEvent P Row ι) : Option (DropRun P Row ι) :=
  (s.act e).map fun t => { t with clock := s.clock + 1, past := s.past ++ [t.l3] }

def system : StepSystem (DropRun P Row ι) (DropEvent P Row ι) := ⟨step⟩

/-- A row may go into L2 as far as the drops are concerned: L3 held it at the cause of each or
later. -/
def Recent (s : DropRun P Row ι) (x : DatedRow Row) : Prop := ∀ d ∈ s.drops, d.cause ≤ x.moment
deriving Decidable

def puts (s : DropRun P Row ι) : DropOp P Row → Option (DatedRow Row)
  | .pull _ _ _ (.fetched look x) => if s.l2.revision = look.revision then some x else none
  | .save _ _ _ (.stored x revision) => if s.l2.revision = revision then some x else none
  | _ => none

def writer : DropEvent P Row ι → Option ι
  | .pull i .seed => some i
  | .save i .update => some i
  | _ => none

/-- No seed and no save puts into L2, after a drop, a row that it read from L3 or committed there
before that drop's cause. -/
def Timely (s : DropRun P Row ι) (e : DropEvent P Row ι) : Prop :=
  ∀ i ∈ writer e, ∀ x ∈ s.puts (s.ops i), s.Recent x
deriving Decidable

end DropRun

end ThreeTears
