import ThreeTears.Snapshot.Publishers

/-!
# Runs of a scoped snapshot

The calls of every replica over what they share. Sweeps run beside them: a listing, and then
separate reads of the claims, the pointers and the kept stages before anything is deleted.
-/

namespace ThreeTears

open Function

variable {K T D ι ρ κ ς : Type*}

/-- Where a sweep stands: `todo` are the scopes whose pointers it has not read yet. -/
inductive SweepPc (K T : Type*)
  | idle
  | listed (names : List (ChunkName K T))
  | pointing (names : List (ChunkName K T)) (claimed : List Nat) (todo : List K)
      (seen : List (K × Option (ScopePointer K T)))
  | getting (names : List (ChunkName K T)) (claimed : List Nat)
      (seen : List (K × Option (ScopePointer K T))) (keys : List (K × Nat))
      (got : List (K × ScopeRecord K T))
  | deleting (stale : List (ChunkName K T))

/-- What is swept. `retire_older` is `olderMany` of one scope. -/
inductive Sweep (K T : Type*)
  | olderMany (epochs : List (K × Nat))
  | names (names : List (ChunkName K T))
  | epoch (epoch : Nat)
  | unreferenced

structure PublishCall (K T ρ : Type*) where
  replica : ρ
  scope : K
  pc : PublishPc K T

/-- L3, the pointers and the kept stages in the KV bucket, the write claims, the object store, each
replica's L1, and the calls and sweeps under way. -/
structure SnapshotRun (K T D ι ρ κ ς : Type*) [LinearOrder K] where
  db : EpochDb K D ι
  pointers : K → KvKey (ScopePointer K T)
  records : K → List (ScopeRecord K T)
  claims : List (κ × Nat)
  written : κ → List (ChunkName K T)
  store : List (ChunkName K T)
  applied : ρ → K → Option (ScopePointer K T)
  calls : κ → Option (PublishCall K T ρ)
  sweeps : ς → SweepPc K T

inductive SnapshotAct (K T D ι ρ κ ς : Type*)
  | db (a : EpochAct K D ι)
  | apply (r : ρ) (k : K) (p : Option (ScopePointer K T))
  | start (c : κ) (r : ρ) (k : K) (call : PublishStart T)
  | call (c : κ) (a : PublishAct T)
  | lapse (c : κ)
  | sweep (d : ς) (what : Sweep K T)
  | look (d : ς)
  | delete (d : ς)

def PublishEffect.pointer (kv : KvKey (ScopePointer K T)) :
    PublishEffect K T → KvKey (ScopePointer K T)
  | .move kv' => kv'
  | _ => kv

namespace SnapshotSetup

variable [DecidableEq K] [DecidableEq T] (x : SnapshotSetup K T)

/-- The chunks of a scope that its pointer serves, or that a kept stage ahead of it names. -/
def served (seen : List (K × Option (ScopePointer K T))) (got : List (K × ScopeRecord K T))
    (k : K) : List (ChunkName K T) :=
  let p := (Dict.lookup k seen).join
  (p.map x.names).getD [] ++ got.flatMap fun r =>
    if r.1 = k ∧ ∀ q ∈ p, q.epoch < r.2.epoch then x.stageNames r.2.tables else []

def Deletable (name : ChunkName K T) (served : List (ChunkName K T)) (claimed : List Nat) : Prop :=
  name ∉ served ∧ name.epoch ∉ claimed

instance (name : ChunkName K T) (served : List (ChunkName K T)) (claimed : List Nat) :
    Decidable (Deletable name served claimed) :=
  inferInstanceAs (Decidable (_ ∧ _))

end SnapshotSetup

namespace SnapshotRun

variable [LinearOrder K] [DecidableEq T] (s : SnapshotRun K T D ι ρ κ ς)

def listed : Sweep K T → List (ChunkName K T)
  | .olderMany epochs => s.store.filter fun n => ∃ e ∈ epochs, n.scope = e.1 ∧ n.epoch < e.2
  | .names names => names
  | .epoch epoch => s.store.filter (·.epoch = epoch)
  | .unreferenced => s.store

def look (x : SnapshotSetup K T) : SweepPc K T → Option (SweepPc K T)
  | .listed names =>
    some (.pointing names (s.claims.map Prod.snd) (names.map ChunkName.scope).dedup [])
  | .pointing names claimed (k :: todo) seen =>
    some (.pointing names claimed todo ((k, (s.pointers k).value) :: seen))
  | .pointing names claimed [] seen =>
    some (.getting names claimed seen
      ((seen.map Prod.fst).flatMap fun k => (s.records k).map fun r => (k, r.epoch)) [])
  | .getting names claimed seen ((k, epoch) :: keys) got =>
    some (.getting names claimed seen keys
      (got ++ (((s.records k).find? (·.epoch = epoch)).map (k, ·)).toList))
  | .getting names claimed seen [] got =>
    some (.deleting (names.filter fun n =>
      SnapshotSetup.Deletable n (x.served seen got n.scope) claimed))
  | _ => none

def view (call : PublishCall K T ρ) : ScopeView K T where
  scope := call.scope
  committed := epochOf s.db.table call.scope
  pointer := s.pointers call.scope
  records := s.records call.scope
  store := s.store
  applied := s.applied call.replica call.scope

def kept (records : List (ScopeRecord K T)) (record : ScopeRecord K T) : List (ScopeRecord K T) :=
  if ∃ r ∈ records, r.epoch = record.epoch then records else records ++ [record]

def effect [DecidableEq κ] (c : κ) (k : K) : PublishEffect K T → SnapshotRun K T D ι ρ κ ς
  | .quiet => s
  | .claim epoch =>
    { s with
      claims := (c, epoch) :: s.claims
      written := update s.written c [] }
  | .release => { s with claims := s.claims.filter (·.1 ≠ c) }
  | .put name =>
    { s with
      store := if name ∈ s.store then s.store else name :: s.store
      written := update s.written c (name :: s.written c) }
  | .move kv => { s with pointers := update s.pointers k kv }
  | .keep record => { s with records := update s.records k (kept (s.records k) record) }
  | .drop epoch => { s with records := update s.records k ((s.records k).filter (·.epoch ≠ epoch)) }

section Effects

variable [DecidableEq κ] (c : κ) (k : K) (eff : PublishEffect K T)

@[simp] lemma effect_db : (s.effect c k eff).db = s.db := by cases eff <;> rfl

@[simp] lemma effect_calls : (s.effect c k eff).calls = s.calls := by cases eff <;> rfl

@[simp] lemma effect_sweeps : (s.effect c k eff).sweeps = s.sweeps := by cases eff <;> rfl

@[simp] lemma effect_pointers : (s.effect c k eff).pointers =
    update s.pointers k (eff.pointer (s.pointers k)) := by
  cases eff with
  | move kv => rfl
  | _ => exact (update_eq_self k s.pointers).symm

end Effects

variable [DecidableEq ι] [DecidableEq ρ] [DecidableEq κ] [DecidableEq ς] [Fintype T]

def setPc (c : κ) (call : PublishCall K T ρ) (pc : PublishPc K T) : SnapshotRun K T D ι ρ κ ς :=
  { s with calls := update s.calls c (some { call with pc := pc }) }

def setSweep (d : ς) (pc : SweepPc K T) : SnapshotRun K T D ι ρ κ ς :=
  { s with sweeps := update s.sweeps d pc }

def step (x : SnapshotSetup K T) : SnapshotAct K T D ι ρ κ ς → Option (SnapshotRun K T D ι ρ κ ς)
  | .db a => (s.db.step x.whole a).map fun db => { s with db := db }
  | .apply r k p => some { s with applied := update s.applied r (update (s.applied r) k p) }
  | .start c r k call =>
    if (s.calls c).isNone then
      some { s with calls := update s.calls c (some ⟨r, k, call.pc⟩) }
    else none
  | .call c a =>
    (s.calls c).bind fun call =>
      ((s.view call).next x call.pc a).map fun next =>
        (s.effect c call.scope next.2).setPc c call next.1
  | .lapse c => some { s with claims := s.claims.filter (·.1 ≠ c) }
  | .sweep d what =>
    match s.sweeps d with
    | .idle => some (s.setSweep d (.listed (s.listed what)))
    | _ => none
  | .look d => (s.look x (s.sweeps d)).map (s.setSweep d)
  | .delete d =>
    match s.sweeps d with
    | .deleting (n :: stale) =>
      some ({ s with store := s.store.filter (· ≠ n) }.setSweep d (.deleting stale))
    | .deleting [] => some (s.setSweep d .idle)
    | _ => none

def system (x : SnapshotSetup K T) :
    StepSystem (SnapshotRun K T D ι ρ κ ς) (SnapshotAct K T D ι ρ κ ς) := ⟨fun s a => s.step x a⟩

def start (data : D) : SnapshotRun K T D ι ρ κ ς where
  db := .start data
  pointers := fun _ => .empty
  records := fun _ => []
  claims := []
  written := fun _ => []
  store := []
  applied := fun _ _ => none
  calls := fun _ => none
  sweeps := fun _ => .idle

variable {s} {s' : SnapshotRun K T D ι ρ κ ς} {x : SnapshotSetup K T}
  {a : SnapshotAct K T D ι ρ κ ς}

inductive Moves (x : SnapshotSetup K T) (s : SnapshotRun K T D ι ρ κ ς) :
    SnapshotAct K T D ι ρ κ ς → SnapshotRun K T D ι ρ κ ς → Prop
  | db (a : EpochAct K D ι) (db : EpochDb K D ι) (hdb : s.db.Moves x.whole a db) :
    Moves x s (.db a) { s with db := db }
  | apply (r : ρ) (k : K) (p : Option (ScopePointer K T)) : Moves x s (.apply r k p)
      { s with applied := update s.applied r (update (s.applied r) k p) }
  | start (c : κ) (r : ρ) (k : K) (call : PublishStart T) (hcall : s.calls c = none) :
    Moves x s (.start c r k call)
      { s with calls := update s.calls c (some ⟨r, k, call.pc⟩) }
  | call (c : κ) (a : PublishAct T) (call : PublishCall K T ρ) (pc : PublishPc K T)
      (eff : PublishEffect K T) (hcall : s.calls c = some call)
      (hnext : (s.view call).next x call.pc a = some (pc, eff)) :
    Moves x s (.call c a) ((s.effect c call.scope eff).setPc c call pc)
  | lapse (c : κ) : Moves x s (.lapse c) { s with claims := s.claims.filter (·.1 ≠ c) }
  | sweep (d : ς) (what : Sweep K T) (hidle : s.sweeps d = .idle) :
    Moves x s (.sweep d what) (s.setSweep d (.listed (s.listed what)))
  | look (d : ς) (pc : SweepPc K T) (hlook : s.look x (s.sweeps d) = some pc) :
    Moves x s (.look d) (s.setSweep d pc)
  | delete (d : ς) (n : ChunkName K T) (stale : List (ChunkName K T))
      (hsweep : s.sweeps d = .deleting (n :: stale)) :
    Moves x s (.delete d) ({ s with store := s.store.filter (· ≠ n) }.setSweep d (.deleting stale))
  | swept (d : ς) (hsweep : s.sweeps d = .deleting []) : Moves x s (.delete d) (s.setSweep d .idle)

theorem moves_of_step (ht : s.step x a = some s') : s.Moves x a s' := by
  cases a with try cases ht
  | db a =>
    obtain ⟨db, hdb, rfl⟩ := Option.map_eq_some_iff.1 ht
    exact .db a db (EpochDb.moves_of_step hdb)
  | apply r k p => exact .apply r k p
  | start c r k call =>
    simp only [step] at ht
    split_ifs at ht with hcall
    cases ht
    exact .start c r k call (Option.isNone_iff_eq_none.1 hcall)
  | call c a =>
    obtain ⟨call, hcall, ht⟩ := Option.bind_eq_some_iff.1 ht
    obtain ⟨⟨pc, eff⟩, hnext, rfl⟩ := Option.map_eq_some_iff.1 ht
    exact .call c a call pc eff hcall hnext
  | lapse c => exact .lapse c
  | sweep d what =>
    simp only [step] at ht
    cases hsweep : s.sweeps d with rw [hsweep] at ht
    | idle =>
      cases ht
      exact .sweep d what hsweep
    | _ => cases ht
  | look d =>
    obtain ⟨pc, hlook, rfl⟩ := Option.map_eq_some_iff.1 ht
    exact .look d pc hlook
  | delete d =>
    simp only [step] at ht
    cases hsweep : s.sweeps d with rw [hsweep] at ht
    | deleting sta =>
      cases sta with try cases ht
      | nil => exact .swept d hsweep
      | cons n sta => exact .delete d n sta hsweep
    | _ => cases ht

end SnapshotRun

end ThreeTears
