import ThreeTears.Lib.StepSystem
import ThreeTears.Lib.Families
import ThreeTears.Snapshot.Pointers

/-!
# One replica's versioned L1

A replica holds each scope's rows at an epoch. It takes them from pointers, whole or as the pieces
after what it holds, and from its own publishes. A commit moves the rows and the epochs in one step
of a worker thread; the pointer is recorded on the event loop once the call resumes. Calls commit
under one lock, and may fail or be cancelled at any await.
-/

namespace ThreeTears

open Function Option

variable {K T O R κ : Type*}

/-- The rows of every table of a scope at an epoch, and the rows of every chunk. -/
structure SnapshotRows (K T O R : Type*) where
  rows : K → Nat → T → Finset R
  content : O → Finset R
  appendOnly : T → Bool
  zero : ∀ k t, rows k 0 t = ∅
  grows : ∀ k t {e e' : Nat}, appendOnly t → e ≤ e' → rows k e t ⊆ rows k e' t

/-- The rows that replace a table's rows of a scope, or are appended to them. -/
structure Part (R : Type*) where
  append : Bool
  rows : Finset R

/-- What a commit makes of a scope: `epoch` is `none` when it is dropped. -/
structure ScopeChange (T R : Type*) where
  epoch : Option Nat
  parts : T → Option (Part R)

structure Fetched (T O : Type*) where
  held : Option (Pointer T O)
  current : Pointer T O

/-- The L1's rows, and the epoch of every scope that it holds. -/
structure L1Rows (K T R : Type*) where
  rows : K → T → Finset R
  held : K → Option Nat

inductive L1Job (K T O : Type*)
  | batch (fresh : K → Option (Fetched T O))
  | one (k : K) (f : Fetched T O) (left : K → Option (Fetched T O))
  | publish (k : K) (epoch : Nat)
  | add (k : K) (epoch after : Nat) (added : T → Bool) (p : Pointer T O)
  | drop (scopes : List K)

inductive L1Pc (K T O : Type*)
  | idle
  | gathering (got : K → Option (Fetched T O))
  | retrying (left : K → Option (Fetched T O))
  | adding (k : K) (epoch after : Nat) (added : T → Bool)
  | committing (job : L1Job K T O)
  | committed (job : L1Job K T O)
  | writing (k : K) (epoch : Nat)
  | moving

/-- What a call does next; the pointers are what the KV bucket had. -/
inductive L1Act (K T O : Type*)
  | fetch (k : K) (p : Pointer T O)
  | commitBatch
  | commitOne (k : K)
  | load (k : K) (p : Pointer T O)
  | publish (k : K) (epoch : Nat)
  | publishAdded (k : K) (epoch after : Nat) (added : T → Bool) (current : Option (Pointer T O))
  | land (p : Pointer T O)
  | drop (scopes : List K)
  | swap
  | refuse
  | resume
  | written (p : Pointer T O)
  | unlock
  | fail
  | late

/-- `dropped` counts the commits that dropped each scope. -/
structure VersionedL1 (K T O R κ : Type*) where
  l1 : L1Rows K T R
  applied : K → Option (Pointer T O)
  lock : Option κ
  calls : κ → L1Pc K T O
  orphans : κ → Option (L1Job K T O)
  dropped : K → Nat

variable [DecidableEq R]

namespace SnapshotRows

variable (x : SnapshotRows K T O R)

def rowsOf (names : List O) : Finset R := names.foldr (fun n rows => x.content n ∪ rows) ∅

def Names (k : K) (p : Pointer T O) : Prop := ∀ t, x.rowsOf (p.tables t).names = x.rows k p.epoch t

instance [Fintype T] (k p) : Decidable (x.Names k p) :=
  inferInstanceAs (Decidable (∀ t, x.rowsOf (p.tables t).names = x.rows k p.epoch t))

def whole (chain : Chain O) : Option (Part R) := some ⟨false, x.rowsOf chain.names⟩

/-- `_fetch`, for one table: of a chain only what `held` lacks. -/
def fetch [DecidableEq O] (p : Pointer T O) (held : Option (Pointer T O)) (t : T) :
    Option (Part R) :=
  match held with
  | none => x.whole (p.tables t)
  | some h =>
    if x.appendOnly t ∨ (p.tables t).pieces.length ≠ 0 ∨ (h.tables t).pieces.length ≠ 0 then
      if (h.tables t).Same (p.tables t) ∨ h.epoch = p.epoch then none
      else if (h.tables t).base = (p.tables t).base ∧
          (p.tables t).pieces.take (h.tables t).pieces.length = (h.tables t).pieces then
        some ⟨true, x.rowsOf (((p.tables t).pieces.drop (h.tables t).pieces.length).map Piece.name)⟩
      else x.whole (p.tables t)
    else x.whole (p.tables t)

def fetched [DecidableEq O] (f : Fetched T O) : ScopeChange T R where
  epoch := some f.current.epoch
  parts := x.fetch f.current f.held

def change [DecidableEq O] [DecidableEq K] : L1Job K T O → K → Option (ScopeChange T R)
  | .batch fresh, k => (fresh k).map x.fetched
  | .one k' f _, k => if k = k' then some (x.fetched f) else none
  | .publish k' epoch, k =>
    if k = k' then some ⟨some epoch, fun t => some ⟨false, x.rows k epoch t⟩⟩ else none
  | .add k' epoch after added _, k =>
    if k = k' then
      some ⟨some epoch, fun t =>
        if added t then some ⟨true, x.rows k epoch t \ x.rows k after t⟩
        else some ⟨false, x.rows k epoch t⟩⟩
    else none
  | .drop scopes, k => if k ∈ scopes then some ⟨none, fun _ => some ⟨false, ∅⟩⟩ else none

end SnapshotRows

def Part.apply (rows : Finset R) : Option (Part R) → Finset R
  | none => rows
  | some part => if part.append then rows ∪ part.rows else part.rows

/-- `_VersionedL1.swap`: the rows and the epochs move together. -/
def L1Rows.swap (l : L1Rows K T R) (change : K → Option (ScopeChange T R)) : L1Rows K T R where
  rows k t := (change k).elim (l.rows k t) fun c => Part.apply (l.rows k t) (c.parts t)
  held k := (change k).elim (l.held k) ScopeChange.epoch

namespace VersionedL1

variable [DecidableEq K] [DecidableEq κ] (s : VersionedL1 K T O R κ) (c : κ)

def setPc (pc : L1Pc K T O) : VersionedL1 K T O R κ := { s with calls := update s.calls c pc }

def locked (pc : L1Pc K T O) : VersionedL1 K T O R κ := { s.setPc c pc with lock := some c }

def unlocked (pc : L1Pc K T O) : VersionedL1 K T O R κ := { s.setPc c pc with lock := none }

def apply (k : K) (p : Pointer T O) : VersionedL1 K T O R κ :=
  { s with applied := update s.applied k (some p) }

def swap [DecidableEq O] (x : SnapshotRows K T O R) (job : L1Job K T O) : VersionedL1 K T O R κ :=
  { s with
    l1 := s.l1.swap (x.change job)
    dropped := fun k => match x.change job k with
      | some ⟨none, _⟩ => s.dropped k + 1
      | _ => s.dropped k }

def refused : L1Job K T O → L1Pc K T O
  | .batch fresh => .retrying fresh
  | .one _ _ left => .retrying left
  | .publish _ _ | .add _ _ _ _ _ | .drop _ => .idle

def resumed : L1Job K T O → VersionedL1 K T O R κ
  | .batch fresh =>
    { s.unlocked c .idle with
      applied := fun k => (fresh k).elim (s.applied k) fun f => some f.current }
  | .one k f left => (s.apply k f.current).unlocked c (.retrying left)
  | .publish k epoch => s.setPc c (.writing k epoch)
  | .add k _ _ _ p => (s.apply k p).unlocked c .idle
  | .drop _ => s.unlocked c .idle

variable [Fintype T] [DecidableEq O]

def Fresh (k : K) (f : Fetched T O) : Prop := s.applied k = f.held ∧ f.current.Supersedes f.held

instance (k f) : Decidable (s.Fresh k f) := inferInstanceAs (Decidable (_ ∧ _))

/-- `_publish_added_locked`: the added rows are of append-only tables, past what is held, and follow
the chain that the pointer holds at `after`. -/
def OnChain (x : SnapshotRows K T O R) (k : K) (epoch after : Nat) (added : T → Bool)
    (current : Option (Pointer T O)) : Prop :=
  (∀ t, added t → x.appendOnly t) ∧ (∀ q ∈ current, q.epoch < epoch) ∧
    (∀ q ∈ s.applied k, q.epoch < epoch) ∧
    (current.isNone ∧ (s.applied k).isNone ∧ after = 0 ∨ ∃ p ∈ current, p.epoch = after ∧
        ∃ q ∈ s.applied k, q.epoch = after ∧ ∀ t, (p.tables t).Same (q.tables t))

instance (x k) (epoch after) (added)
    (current) : Decidable (s.OnChain x k epoch after added current) :=
  inferInstanceAs (Decidable (_ ∧ _ ∧ _ ∧ _))

def step (x : SnapshotRows K T O R) (a : L1Act K T O) : Option (VersionedL1 K T O R κ) :=
  match a, s.calls c with
  | .fetch k p, .idle =>
    if x.Names k p then
      some (s.setPc c (.gathering (update (fun _ => none) k (some ⟨s.applied k, p⟩))))
    else none
  | .fetch k p, .gathering got =>
    if x.Names k p then
      some (s.setPc c (.gathering (update got k (some ⟨s.applied k, p⟩))))
    else none
  | .commitBatch, .gathering got =>
    if s.lock.isNone then
      some (s.locked c (.committing (.batch fun k => (got k).filter (s.Fresh k ·))))
    else none
  | .commitOne k, .retrying left =>
    if s.lock.isNone then
      some (match (left k).filter (s.Fresh k ·) with
        | some f => s.locked c (.committing (.one k f (update left k none)))
        | none => s.setPc c (.retrying (update left k none)))
    else none
  | .load k p, .idle =>
    if s.lock.isNone ∧ x.Names k p ∧ p.Supersedes (s.applied k) then
      some (s.locked c (.committing (.one k ⟨none, p⟩ fun _ => none)))
    else none
  | .publish k epoch, .idle =>
    if s.lock.isNone ∧ ∀ q ∈ s.applied k, q.epoch ≤ epoch then
      some (s.locked c (.committing (.publish k epoch)))
    else none
  | .publishAdded k epoch after added current, .idle =>
    if s.lock.isNone ∧ s.OnChain x k epoch after added current then
      some (s.locked c (.adding k epoch after added))
    else none
  | .land p, .adding k epoch after added =>
    if x.Names k p ∧ p.epoch = epoch then
      some (s.setPc c (.committing (.add k epoch after added p)))
    else none
  | .drop scopes, .idle =>
    if s.lock.isNone then
      some { s.locked c (.committing (.drop scopes)) with
        applied := fun k => if k ∈ scopes then none else s.applied k }
    else none
  | .swap, .committing job => some ((s.swap x job).setPc c (.committed job))
  | .refuse, .committing job => some (s.unlocked c (refused job))
  | .resume, .committed job => some (s.resumed c job)
  | .written p, .writing k epoch =>
    if x.Names k p ∧ p.epoch = epoch then some ((s.apply k p).setPc c .moving) else none
  | .unlock, .moving => some (s.unlocked c .idle)
  | .fail, .gathering _ | .fail, .retrying _ => some (s.setPc c .idle)
  | .fail, .adding _ _ _ _ | .fail, .committed _ | .fail, .writing _ _ | .fail, .moving =>
    some (s.unlocked c .idle)
  | .fail, .committing job =>
    if (s.orphans c).isNone then
      some { s.unlocked c .idle with orphans := update s.orphans c (some job) }
    else none
  | .late, _ =>
    (s.orphans c).map fun job => { s.swap x job with orphans := update s.orphans c none }
  | _, _ => none

def system (x : SnapshotRows K T O R) : StepSystem (VersionedL1 K T O R κ) (κ × L1Act K T O) :=
  ⟨fun s a => s.step a.1 x a.2⟩

def start : VersionedL1 K T O R κ where
  l1 := ⟨fun _ _ => ∅, fun _ => none⟩
  applied := fun _ => none
  lock := none
  calls := fun _ => .idle
  orphans := fun _ => none
  dropped := fun _ => 0

variable {s} {s' : VersionedL1 K T O R κ} {c} {x : SnapshotRows K T O R} {a : L1Act K T O}

inductive Moves (x : SnapshotRows K T O R) (s : VersionedL1 K T O R κ) (c : κ) :
    L1Act K T O → VersionedL1 K T O R κ → Prop
  | fetch (k : K) (p : Pointer T O) (got : K → Option (Fetched T O))
      (hpc : s.calls c = .gathering got ∨ s.calls c = .idle ∧ got = fun _ => none)
      (hp : x.Names k p) : Moves x s c (.fetch k p)
      (s.setPc c (.gathering (update got k (some ⟨s.applied k, p⟩))))
  | commitBatch (got : K → Option (Fetched T O)) (hpc : s.calls c = .gathering got)
      (hlock : s.lock = none) : Moves x s c .commitBatch
      (s.locked c (.committing (.batch fun k => (got k).filter (s.Fresh k ·))))
  | commitOne (k : K) (f : Fetched T O) (left : K → Option (Fetched T O))
      (hpc : s.calls c = .retrying left) (hlock : s.lock = none) (hf : left k = some f)
      (hfresh : s.Fresh k f) : Moves x s c (.commitOne k)
      (s.locked c (.committing (.one k f (update left k none))))
  | passOne (k : K) (left : K → Option (Fetched T O)) (hpc : s.calls c = .retrying left) :
    Moves x s c (.commitOne k) (s.setPc c (.retrying (update left k none)))
  | load (k : K) (p : Pointer T O) (hpc : s.calls c = .idle) (hlock : s.lock = none)
      (hp : x.Names k p) (hsupersedes : p.Supersedes (s.applied k)) : Moves x s c (.load k p)
      (s.locked c (.committing (.one k ⟨none, p⟩ fun _ => none)))
  | publish (k : K) (epoch : Nat) (hpc : s.calls c = .idle) (hlock : s.lock = none)
      (hle : ∀ q ∈ s.applied k, q.epoch ≤ epoch) : Moves x s c (.publish k epoch)
      (s.locked c (.committing (.publish k epoch)))
  | publishAdded (k : K) (epoch after : Nat) (added : T → Bool) (current : Option (Pointer T O))
      (hpc : s.calls c = .idle) (hlock : s.lock = none)
      (hchain : s.OnChain x k epoch after added current) :
    Moves x s c (.publishAdded k epoch after added current)
      (s.locked c (.adding k epoch after added))
  | land (k : K) (epoch after : Nat) (added : T → Bool) (p : Pointer T O)
      (hpc : s.calls c = .adding k epoch after added) (hp : x.Names k p)
        (hepoch : p.epoch = epoch) :
    Moves x s c (.land p) (s.setPc c (.committing (.add k epoch after added p)))
  | drop (scopes : List K) (hpc : s.calls c = .idle) (hlock : s.lock = none) :
    Moves x s c (.drop scopes) { s.locked c (.committing (.drop scopes)) with
      applied := fun k => if k ∈ scopes then none else s.applied k }
  | swap (job : L1Job K T O) (hpc : s.calls c = .committing job) :
    Moves x s c .swap ((s.swap x job).setPc c (.committed job))
  | refuse (job : L1Job K T O) (hpc : s.calls c = .committing job) :
    Moves x s c .refuse (s.unlocked c (refused job))
  | resume (job : L1Job K T O) (hpc : s.calls c = .committed job) :
    Moves x s c .resume (s.resumed c job)
  | written (k : K) (p : Pointer T O) (hpc : s.calls c = .writing k p.epoch) (hp : x.Names k p) :
    Moves x s c (.written p) ((s.apply k p).setPc c .moving)
  | unlock (hpc : s.calls c = .moving) : Moves x s c .unlock (s.unlocked c .idle)
  | fails (got : K → Option (Fetched T O))
      (hpc : s.calls c = .gathering got ∨ s.calls c = .retrying got) :
    Moves x s c .fail (s.setPc c .idle)
  | failsLocked (hpc : (∃ k epoch after added, s.calls c = .adding k epoch after added) ∨
        (∃ job, s.calls c = .committed job) ∨ (∃ k epoch, s.calls c = .writing k epoch) ∨
        s.calls c = .moving) : Moves x s c .fail (s.unlocked c .idle)
  | cancels (job : L1Job K T O) (hpc : s.calls c = .committing job) : Moves x s c .fail
      { s.unlocked c .idle with orphans := update s.orphans c (some job) }
  | late (job : L1Job K T O) (horphan : s.orphans c = some job) :
    Moves x s c .late { s.swap x job with orphans := update s.orphans c none }

theorem moves_of_step (ht : s.step c x a = some s') : s.Moves x c a s' := by
  unfold step at ht
  split at ht <;> (try split_ifs at ht with h) <;> try cases ht
  · next k p hpc => exact .fetch k p _ (.inr ⟨hpc, rfl⟩) h
  · next k p got hpc => exact .fetch k p got (.inl hpc) h
  · next got hpc => exact .commitBatch got hpc (isNone_iff_eq_none.1 h)
  · next k left hpc =>
    cases hf : (left k).filter (s.Fresh k ·) with
    | none => exact .passOne k left hpc
    | some f =>
      obtain ⟨hf, hr⟩ := filter_eq_some_iff.1 hf
      exact .commitOne k f left hpc (isNone_iff_eq_none.1 h) hf (of_decide_eq_true hr)
  · next k p hpc => exact .load k p hpc (isNone_iff_eq_none.1 h.1) h.2.1 h.2.2
  · next k epoch hpc => exact .publish k epoch hpc (isNone_iff_eq_none.1 h.1) h.2
  · next k epoch after added current hpc =>
    exact .publishAdded k epoch after added current hpc (isNone_iff_eq_none.1 h.1) h.2
  · next p k epoch after added hpc => exact .land k epoch after added p hpc h.1 h.2
  · next scopes hpc => exact .drop scopes hpc (isNone_iff_eq_none.1 h)
  · next job hpc => exact .swap job hpc
  · next job hpc => exact .refuse job hpc
  · next job hpc => exact .resume job hpc
  · next p k epoch hpc =>
    obtain ⟨hp, rfl⟩ := h
    exact .written k p hpc hp
  · next hpc => exact .unlock hpc
  · next got hpc => exact .fails got (.inl hpc)
  · next left hpc => exact .fails left (.inr hpc)
  · next k epoch after added hpc => exact .failsLocked (.inl ⟨k, epoch, after, added, hpc⟩)
  · next job hpc => exact .failsLocked (.inr (.inl ⟨job, hpc⟩))
  · next k epoch hpc => exact .failsLocked (.inr (.inr (.inl ⟨k, epoch, hpc⟩)))
  · next hpc => exact .failsLocked (.inr (.inr (.inr hpc)))
  · next job hpc => exact .cancels job hpc
  obtain ⟨job, horphan, rfl⟩ := map_eq_some_iff.1 ht
  exact .late job horphan

end VersionedL1

end ThreeTears
