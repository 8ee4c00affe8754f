import ThreeTears.Lib.StepSystem
import Mathlib.Algebra.BigOperators.Group.Finset.Defs

/-!
# A scoped snapshot published in parts

A version of the shared store is a directory of files: a table is one file, or a file for each of
its parts, which in a snapshot are its scopes. A publish starts from the publisher's last version,
while that one is current: it writes the scopes whose epoch moved and links the others' files. Other
callers write versions, make them current and let them go.
-/

namespace ThreeTears

variable {ι T E R ν : Type*}

def nameChars : List Char :=
  "abcdefghijklmnopqrstuvwxyzABCDEFGHIJKLMNOPQRSTUVWXYZ0123456789-_.".toList

/-- `plain_name`: what a version, a table or a part may be named as it is. -/
def plainName (name : List Char) : Bool :=
  0 < name.length && name.length ≤ 128 && name.head? ≠ some '.' && name.all (· ∈ nameChars) &&
    name ≠ "CURRENT".toList

/-- `_DIGEST_PREFIX`. -/
def digestMark : List Char := ['h', '-']

/-- `_scope_part`: the part of a scope is the scope itself when it is a plain name, else its digest.
-/
def scopePart (digest : List Char → List Char) (scope : List Char) : List Char :=
  if plainName scope && !digestMark.isPrefixOf scope then scope else digestMark ++ digest scope

/-- The files of a version, by table: the parts of a table in parts, the rows of a table in one
file. -/
structure VersionFiles (T R : Type*) where
  parts : T → Option (Multiset (List Char × Multiset R))
  whole : T → Option (Multiset R)

def VersionFiles.rows (v : VersionFiles T R) (t : T) : Multiset R :=
  (((v.parts t).getD 0).map Prod.snd).sum + (v.whole t).getD 0

/-- A table as it is given to a publish. In parts, it names those to write and those to drop. -/
inductive TableSource (R : Type*)
  | whole (rows : Multiset R)
  | parts (written : Multiset (List Char × Multiset R)) (dropped : Finset (List Char))

/-- `_write_tables`: what is not named is the base's. -/
def writeTables (tables : T → Option (TableSource R)) (base : Option (VersionFiles T R)) :
    VersionFiles T R where
  parts t :=
    match tables t with
    | some (.parts written dropped) =>
      some (((base.bind (·.parts t)).getD 0).filter
        (fun p => p.1 ∉ written.map Prod.fst ∧ p.1 ∉ dropped) + written)
    | some (.whole _) => none
    | none => base.bind (·.parts t)
  whole t :=
    match tables t with
    | some (.whole rows) => some rows
    | some (.parts _ _) => none
    | none => base.bind (·.whole t)

/-- The snapshot's tables and the reads of its copy that are published. The rows of a scope are
those of its epoch in every read that names one. Reads that name their version alike have the same
rows. -/
structure SnapshotReads (ι T E R ν : Type*) [DecidableEq R] where
  tables : Finset T
  scope : T → R → List Char
  digest : List Char → List Char
  digest_injective : Function.Injective digest
  epochs : ι → List Char → Option E
  table : ι → T → Multiset R
  name : ι → ν
  extra : ι → T → Option (Multiset R)
  extra_beside : ∀ i, ∀ t ∈ tables, extra i t = none
  rows : T → List Char → E → Multiset R
  exact : ∀ i, ∀ t ∈ tables, ∀ scope' e, epochs i scope' = some e →
    (table i t).filter (fun r => scope t r = scope') = rows t scope' e
  alike : ∀ i j, name i = name j → ∀ t ∈ tables, table i t = table j t

/-- `_last`: the version published last, its epochs, and the scopes of each table in it. -/
structure LastPublished (T E ν : Type*) where
  name : ν
  epochs : List Char → Option E
  present : T → Finset (List Char)

inductive PublishJob (T E ν : Type*)
  | asItIs
  | whole
  | based (last : LastPublished T E ν)

def PublishJob.held : PublishJob T E ν → Option (LastPublished T E ν)
  | .based last => some last
  | _ => none

namespace SnapshotReads

variable [DecidableEq T] [DecidableEq E] [DecidableEq R] (x : SnapshotReads ι T E R ν)

/-- `_scopes`. -/
def present (i : ι) (t : T) : Finset (List Char) := ((x.table i t).map (x.scope t)).toFinset

def describe (i : ι) : LastPublished T E ν := ⟨x.name i, x.epochs i, x.present i⟩

def part (i : ι) (t : T) (scope : List Char) : List Char × Multiset R :=
  (scopePart x.digest scope, (x.table i t).filter fun r => x.scope t r = scope)

def Moved (i : ι) (held : List Char → Option E) (scope : List Char) : Prop :=
  x.epochs i scope = none ∨ held scope ≠ x.epochs i scope

instance (i held) (scope) : Decidable (x.Moved i held scope) := inferInstanceAs (Decidable (_ ∨ _))

variable (held : Option (LastPublished T E ν))

def heldScopes (t : T) : Finset (List Char) := held.elim ∅ (·.present t)

def heldEpochs (scope : List Char) : Option E := held.bind (·.epochs scope)

def writes (i : ι) (t : T) : Finset (List Char) :=
  (x.present i t).filter fun scope => x.Moved i (heldEpochs held) scope ∨ scope ∉ heldScopes held t

def drops (i : ι) (t : T) : Finset (List Char) := heldScopes held t \ x.present i t

/-- `SharedSnapshot.publish`: the tables given to the store. -/
def sources (i : ι) (t : T) : Option (TableSource R) :=
  match x.extra i t with
  | some rows => some (.whole rows)
  | none =>
    if t ∈ x.tables then
      some (.parts ((x.writes held i t).val.map (x.part i t))
        ((x.drops held i t).image (scopePart x.digest)))
    else none

def jobTables (i : ι) : PublishJob T E ν → T → Option (TableSource R)
  | .asItIs => fun _ => none
  | .whole => x.sources none i
  | .based last => x.sources (some last) i

end SnapshotReads

/-- A publish has looked at the current version; it is to publish to the store; the store writes its
version; the version is in place; it is current. -/
inductive PartsPc (ι T E ν : Type*)
  | idle
  | looked (i : ι) (current : Option ν)
  | entering (i : ι) (job : PublishJob T E ν)
  | writing (i : ι) (job : PublishJob T E ν)
  | placed (i : ι)
  | made (i : ι)

def PartsPc.found : PartsPc ι T E ν → Option ι
  | .entering i .asItIs => some i
  | _ => none

/-- What a publish returns, as it is when the version is current. -/
structure PublishAnswer (ι T R ν : Type*) where
  read : ι
  current : Option ν
  files : Option (VersionFiles T R)

/-- A step of the publisher, or of another caller: a version that nobody holds is let go, another is
written, a version is made current. -/
inductive PartsEvent (ι T R ν : Type*)
  | publish (i : ι)
  | list
  | enter
  | write
  | make
  | finish
  | fail
  | retire (n : ν)
  | other (n : ν) (v : VersionFiles T R)
  | remake (n : ν)

/-- The store and the publisher. `pending` is the version the store is writing, `leased` the base it
holds meanwhile. -/
structure PartsRun (ι T E R ν : Type*) where
  versions : ν → Option (VersionFiles T R)
  current : Option ν
  pending : Option ν
  leased : Option ν
  last : Option (LastPublished T E ν)
  pc : PartsPc ι T E ν
  answers : List (PublishAnswer ι T R ν)

namespace PartsRun

variable [DecidableEq T] [DecidableEq E] [DecidableEq R] [DecidableEq ν]
  (x : SnapshotReads ι T E R ν) (s : PartsRun ι T E R ν)

def answer (i : ι) : PartsRun ι T E R ν :=
  { s with answers := s.answers ++ [⟨i, s.current, s.versions (x.name i)⟩] }

/-- The job of a publish whose version is not current: `current` is what it saw. -/
def jobOf (i : ι) (current : Option ν) : PublishJob T E ν :=
  if (s.versions (x.name i)).isSome then .asItIs
  else match s.last with
    | none => .whole
    | some last => if current = some last.name then .based last else .whole

/-- `SharedArrowStore.publish` up to the write. A base that is gone is refused. -/
def enter (i : ι) (job : PublishJob T E ν) : PartsRun ι T E R ν :=
  if (s.versions (x.name i)).isSome then
    { s with pending := some (x.name i), pc := .placed i }
  else match job.held with
    | none => { s with pending := some (x.name i), pc := .writing i job }
    | some last =>
      if (s.versions last.name).isSome then
        { s with pending := some (x.name i), leased := some last.name, pc := .writing i job }
      else { s with pc := .idle }

/-- `_write_version`: the version is renamed into place whole. -/
def write (i : ι) (job : PublishJob T E ν) : PartsRun ι T E R ν :=
  { s with
    versions := Function.update s.versions (x.name i) (some (writeTables (x.jobTables i job)
      (job.held.bind fun last => s.versions last.name)))
    pc := .placed i }

def make (i : ι) : PartsRun ι T E R ν :=
  answer x { s with current := some (x.name i), pending := none, leased := none, pc := .made i } i

def step : PartsEvent ι T R ν → Option (PartsRun ι T E R ν)
  | .publish i =>
    match s.pc with
    | .idle =>
      some (if s.current = some (x.name i) then s.answer x i else
        { s with pc := .looked i s.current })
    | _ => none
  | .list =>
    match s.pc with
    | .looked i current => some { s with pc := .entering i (s.jobOf x i current) }
    | _ => none
  | .enter =>
    match s.pc with
    | .entering i job => if s.pending = none then some (s.enter x i job) else none
    | _ => none
  | .write =>
    match s.pc with
    | .writing i job => some (s.write x i job)
    | _ => none
  | .make =>
    match s.pc with
    | .placed i => some (s.make x i)
    | _ => none
  | .finish =>
    match s.pc with
    | .made i => some { s with last := some (x.describe i), pc := .idle }
    | _ => none
  | .fail => some { s with pending := none, leased := none, pc := .idle }
  | .retire n =>
    if some n ≠ s.current ∧ some n ≠ s.pending ∧ some n ≠ s.leased then
      some { s with versions := Function.update s.versions n none }
    else none
  | .other n v =>
    if s.pending = none ∧ s.versions n = none then
      some { s with versions := Function.update s.versions n (some v) }
    else none
  | .remake n =>
    if s.pending = none ∧ (s.versions n).isSome then some { s with current := some n } else none

def system : StepSystem (PartsRun ι T E R ν) (PartsEvent ι T R ν) where
  step := step x

def start (versions : ν → Option (VersionFiles T R)) (current : Option ν) : PartsRun ι T E R ν where
  versions := versions
  current := current
  pending := none
  leased := none
  last := none
  pc := .idle
  answers := []

/-- No version is let go after a publish has found it in the store and before its publish there. -/
def Kept : PartsEvent ι T R ν → Prop
  | .retire n => ∀ i ∈ s.pc.found, x.name i ≠ n
  | _ => True

instance (e) : Decidable (s.Kept x e) := by
  unfold Kept
  split <;> infer_instance

end PartsRun

end ThreeTears
