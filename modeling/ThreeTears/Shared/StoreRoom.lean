import ThreeTears.Lib.LinkedFiles
import ThreeTears.Lib.StepSystem

/-!
# The room of a shared store

The store's directory holds versions, workers' results and hand-offs, each in a directory that is
staged, renamed into place and at last retired. A slot and a hand-off are written under a reserved
bound; a version is written into what is left. A file that several directories link counts once.
-/

namespace ThreeTears

variable {F δ σ : Type*}

inductive DirOwner (σ : Type*)
  | version
  | slot (k : σ)
  | handoff (k : σ)
  deriving DecidableEq

inductive DirPlace
  | absent
  | staging
  | named
  | retiring
  deriving DecidableEq

/-- A write into a slot (`SegmentSlot.write`, `writing`) or of a hand-off (`hand`). -/
structure BoundedWrite (F δ σ : Type*) where
  owner : DirOwner σ
  bound : Nat
  dir : δ
  written : Nat
  file : Option F

/-- `_write_version`. `files` is what the directory held at its start but for reservations, and
`before` are the results claimed and the hand-offs written by then. -/
structure VersionWrite (F δ σ : Type*) where
  dir : δ
  files : Nat
  before : List (DirOwner σ)
  written : Nat
  file : Option F

/-- The store and its directory. `reserved` are `_slots` and `_handing`, `owned` are `_claimed` and
`_handed`, `ownedBytes` their bytes; `made` are all reservations so far, and `target` is the
directory with the own name of a slot or a hand-off. -/
structure ShmStore (F δ σ : Type*) where
  fs : LinkedFiles F δ
  owner : δ → DirOwner σ
  place : δ → DirPlace
  target : DirOwner σ → Option δ
  made : List (DirOwner σ × Nat)
  reserved : List (DirOwner σ × Nat)
  owned : List (DirOwner σ)
  ownedBytes : List (DirOwner σ × Nat)
  writes : List (BoundedWrite F δ σ)
  publish : Option (VersionWrite F δ σ)
  current : Option δ

/-- The directories of `renamed` take their names while `reserve`, `hand` or a publish walks the
store's directory. `held` are those whose lock a reader or a writer holds. -/
inductive RoomEvent (F δ σ : Type*)
  | reserve (k : σ) (bound : Nat) (renamed : List δ)
  | startSlot (k : σ) (d : δ)
  | hand (k : σ) (bound : Nat) (d : δ) (renamed : List δ)
  | openFile (d : δ) (f : F)
  | batch (d : δ) (n : Nat)
  | endWrite (d : δ)
  | failWrite (d : δ)
  | claim (k : σ)
  | discard (k : σ)
  | close (k : σ)
  | release (k : σ)
  | startPublish (d : δ) (renamed : List δ)
  | link (f : F)
  | publishFile (f : F)
  | publishBatch (n : Nat)
  | placeVersion
  | failPublish
  | sweep (held : List δ)
  | forget
  | remove (d : δ) (f : F)

def DirOwner.isHandoff : DirOwner σ → Bool
  | .handoff _ => true
  | _ => false

namespace ShmStore

variable [DecidableEq F] [DecidableEq δ] [DecidableEq σ] (s : ShmStore F δ σ)

def isReserved (k : DirOwner σ) : Bool := s.reserved.any (·.1 = k)

def counted (d : δ) : Bool := !s.isReserved (s.owner d)

def reservedBytes : Nat := (s.reserved.map Prod.snd).sum

/-- The bytes that the walk of `_committed_bytes` finds: a directory that is renamed between its
listing and its `is_dir` is missed. -/
def walkedBytes (missed : List δ) : Nat := s.fs.bytesIn fun d => s.counted d && d ∉ missed

def committedBytes (missed : List δ) : Nat := s.walkedBytes missed + s.reservedBytes

def bytesOf (k : DirOwner σ) : Nat := s.fs.bytesIn fun d => s.owner d = k

def ownedSince (before : List (DirOwner σ)) : Nat :=
  ((s.ownedBytes.filter (·.1 ∉ before)).map Prod.snd).sum

def mkdir (d : δ) (k : DirOwner σ) : ShmStore F δ σ :=
  { s with owner := Function.update s.owner d k, place := Function.update s.place d .staging }

def rename (d : δ) : ShmStore F δ σ :=
  { s with
    place := Function.update s.place d .named
    target := Function.update s.target (s.owner d) (some d) }

def placeVersion : ShmStore F δ σ :=
  match s.publish with
  | none => s
  | some w =>
    { s with place := Function.update s.place w.dir .named, publish := none, current := some w.dir }

def unreserve (k : DirOwner σ) : ShmStore F δ σ :=
  { s with reserved := s.reserved.filter (·.1 ≠ k) }

def own (k : DirOwner σ) (bytes : Nat) : ShmStore F δ σ :=
  { s.unreserve k with owned := k :: s.owned, ownedBytes := (k, bytes) :: s.ownedBytes }

def disown (k : DirOwner σ) : ShmStore F δ σ := { s with owned := s.owned.filter (· ≠ k) }

variable (maxBytes : Nat)

def startWrite (k : DirOwner σ) (bound : Nat) (d : δ) : Option (ShmStore F δ σ) :=
  if s.place d = .absent ∧ s.target k = none then
    some { s.mkdir d k with writes := ⟨k, bound, d, 0, none⟩ :: s.writes }
  else none

def writeIn (d : δ) : Option (BoundedWrite F δ σ) := s.writes.find? (·.dir = d)

def setWrite (d : δ) (w : BoundedWrite F δ σ) : ShmStore F δ σ :=
  { s with writes := s.writes.map fun w' => if w'.dir = d then w else w' }

def dropWrite (d : δ) : ShmStore F δ σ := { s with writes := s.writes.filter (·.dir ≠ d) }

/-- The end of a write. A slot that has a result keeps it, and the new one is left in its staging
directory; a hand-off is counted by what was written. -/
def endWrite (w : BoundedWrite F δ σ) : ShmStore F δ σ :=
  if w.owner.isHandoff then ((s.dropWrite w.dir).rename w.dir).own w.owner w.written
  else if s.target w.owner = none then (s.dropWrite w.dir).rename w.dir
  else s.dropWrite w.dir

/-- A directory takes its name during a walk, which holds the lock of the store's state: the version
that is published, or the result of a worker whose slot is given up. The directory of an open slot
is not counted before nor after. -/
def renameUnlocked (d : δ) : Option (ShmStore F δ σ) :=
  if s.publish.any (·.dir = d) then some s.placeVersion
  else
    (s.writeIn d).bind fun w =>
      if w.owner.isHandoff ∨ s.isReserved w.owner then none else some (s.endWrite w)

/-- The check of `reserve` and of `hand`, and the reservation. -/
def takeRoom (k : DirOwner σ) (bound : Nat) (renamed : List δ) : Option (ShmStore F δ σ) :=
  (renamed.foldlM renameUnlocked s).bind fun s' =>
    if k ∉ s.made.map Prod.fst ∧ s.committedBytes renamed + bound ≤ maxBytes then
      some { s' with reserved := (k, bound) :: s'.reserved, made := (k, bound) :: s'.made }
    else none

/-- `_write_version` up to its staging directory. -/
def startPublish (d : δ) (renamed : List δ) : Option (ShmStore F δ σ) :=
  (renamed.foldlM renameUnlocked s).bind fun s' =>
    if s.publish.isNone ∧ s'.place d = .absent then
      some { s'.mkdir d .version with
        publish := some ⟨d, s.walkedBytes renamed, s'.ownedBytes.map Prod.fst, 0, none⟩ }
    else none

def failWrite (w : BoundedWrite F δ σ) : ShmStore F δ σ :=
  if w.owner.isHandoff then (s.dropWrite w.dir).unreserve w.owner else s.dropWrite w.dir

/-- `claim`: the result, if the worker wrote one. -/
def claim (k : DirOwner σ) : ShmStore F δ σ :=
  match s.target k with
  | some d => s.own k (s.fs.bytesIn fun d' => d' = d)
  | none => s.unreserve k

/-- `sweep` retires a version that is neither current nor held, a result that no slot and no claim
owns, a hand-off that was released, and what a write that is over left. -/
def retires (held : List δ) (d : δ) : Bool :=
  match s.place d, s.owner d with
  | .staging, .version => (s.publish.all fun w => w.dir ≠ d) && d ∉ held
  | .named, .version => some d ≠ s.current && d ∉ held
  | .staging, .slot k => !s.isReserved (.slot k) && d ∉ held
  | .staging, .handoff k => !s.isReserved (.handoff k)
  | .named, k => !s.isReserved k && k ∉ s.owned && d ∉ held
  | _, _ => false

def forgetBytes (p : DirOwner σ → Bool) : ShmStore F δ σ :=
  { s with
    ownedBytes := s.ownedBytes.filter fun r => !(p r.1 && r.1 ∉ s.owned && s.target r.1 = none) }

def sweep (held : List δ) : ShmStore F δ σ :=
  forgetBytes
    { s with
      place := fun d => if s.retires held d then .retiring else s.place d
      target := fun k => (s.target k).filter fun d => !s.retires held d }
    DirOwner.isHandoff

def HasRoom (w : VersionWrite F δ σ) (n : Nat) : Prop :=
  w.written + n + w.files + s.ownedSince w.before + s.reservedBytes ≤ maxBytes
deriving Decidable

def step : RoomEvent F δ σ → Option (ShmStore F δ σ)
  | .reserve k bound renamed => s.takeRoom maxBytes (.slot k) bound renamed
  | .startSlot k d => (s.made.find? (·.1 = .slot k)).bind fun r => s.startWrite (.slot k) r.2 d
  | .hand k bound d renamed =>
    (s.takeRoom maxBytes (.handoff k) bound renamed).bind (startWrite · (.handoff k) bound d)
  | .openFile d f =>
    (s.writeIn d).bind fun w =>
      if f ∉ s.fs.files then
        some { s.setWrite d { w with file := some f } with fs := s.fs.create f d }
      else none
  | .batch d n =>
    (s.writeIn d).bind fun w => w.file.bind fun f =>
      if w.written + n ≤ w.bound then
        some { s.setWrite d { w with written := w.written + n } with fs := s.fs.grow f n }
      else none
  | .endWrite d => (s.writeIn d).map fun w => s.endWrite w
  | .failWrite d => (s.writeIn d).map fun w => s.failWrite w
  | .claim k => if s.isReserved (.slot k) then some (s.claim (.slot k)) else none
  | .discard k => some (s.unreserve (.slot k))
  | .close k => some (s.disown (.slot k))
  | .release k => some (s.disown (.handoff k))
  | .startPublish d renamed => s.startPublish d renamed
  | .link f =>
    s.publish.bind fun w =>
      if s.fs.In (fun d => s.counted d && s.place d = .named) f then
        some { s with fs := s.fs.link f w.dir }
      else none
  | .publishFile f =>
    s.publish.bind fun w =>
      if f ∉ s.fs.files then
        some { s with fs := s.fs.create f w.dir, publish := some { w with file := some f } }
      else none
  | .publishBatch n =>
    s.publish.bind fun w => w.file.bind fun f =>
      if s.HasRoom maxBytes w n then
        some { s with fs := s.fs.grow f n, publish := some { w with written := w.written + n } }
      else none
  | .placeVersion => some s.placeVersion
  | .failPublish => some { s with publish := none }
  | .sweep held => some (s.sweep held)
  | .forget => some (s.forgetBytes fun k => !k.isHandoff)
  | .remove d f => if s.place d ≠ .named then some { s with fs := s.fs.unlink f d } else none

def system : StepSystem (ShmStore F δ σ) (RoomEvent F δ σ) where
  step s := s.step maxBytes

def start (fs : LinkedFiles F δ) : ShmStore F δ σ where
  fs := fs
  owner := fun _ => .version
  place := fun d => if ∃ f ∈ fs.files, d ∈ fs.dirs f then .named else .absent
  target := fun _ => none
  made := []
  reserved := []
  owned := []
  ownedBytes := []
  writes := []
  publish := none
  current := none

/-- A slot is written by one worker, from its start on, while it is open. While a version is
written, no reservation ends whose directories hold bytes but by a claim or as a hand-off is
written, and nothing counted since is let go of. Nothing that a walk counts takes its name
during it. -/
def Orderly : RoomEvent F δ σ → Prop
  | .reserve _ _ renamed | .hand _ _ _ renamed | .startPublish _ renamed => renamed = []
  | .startSlot k _ => (∀ w ∈ s.writes, w.owner ≠ .slot k) ∧
    ∀ f ∈ s.fs.files, ¬s.fs.In (fun d => s.owner d = .slot k) f
  | .batch d _ => ∀ w ∈ s.writeIn d, s.isReserved w.owner
  | .failWrite d => s.publish.isSome → ∀ w ∈ s.writeIn d, w.owner.isHandoff → s.bytesOf w.owner = 0
  | .claim k => s.publish.isSome → s.target (.slot k) = none → s.bytesOf (.slot k) = 0
  | .discard k => s.publish.isSome → s.bytesOf (.slot k) = 0
  | .close k => ∀ w ∈ s.publish, DirOwner.slot k ∈ w.before
  | .release k => ∀ w ∈ s.publish, DirOwner.handoff k ∈ w.before
  | _ => True

instance (e) : Decidable (s.Orderly e) := by
  unfold Orderly
  split <;> infer_instance

end ShmStore

end ThreeTears
