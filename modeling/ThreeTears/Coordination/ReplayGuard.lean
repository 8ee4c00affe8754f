import ThreeTears.Lib.Families
import ThreeTears.Lib.StepSystem

/-!
# The replay guard

`ReplayGuard.record_unique` creates an entry for the nonce in a shared bucket, and a created entry
is fresh unless the artifact was issued before the bucket was, give or take the verifier's future
tolerance and the drift of the clocks. The bucket forgets an entry after its TTL, and all of them
when the broker restarts. With an anchor the second rule is left out for a bucket that is taken for
the ledger's first. Times are microseconds on the broker's clock.
-/

namespace ThreeTears

variable {N ρ ι : Type*}

def clockDriftAllowance : Int := 5000000

structure ReplayGuardConfig where
  ttl : Int
  verifierFutureTolerance : Int
  maxAge : Int
  anchored : Bool
  ttl_pos : 0 < ttl
  tolerance_nonneg : 0 ≤ verifierFutureTolerance

namespace ReplayGuardConfig

variable (cfg : ReplayGuardConfig)

def reach : Int := cfg.verifierFutureTolerance + clockDriftAllowance

/-- `issue_time_is_fresh`, as the verifier asks it. -/
def IssueTimeIsFresh (issued clock : Int) : Prop :=
  -cfg.maxAge ≤ issued - clock ∧ issued - clock ≤ cfg.verifierFutureTolerance
deriving Decidable

def bucketReplacedALostOne (firstExisted : Option Int) (created : Int) : Bool :=
  match cfg.anchored, firstExisted with
  | true, some first => first < created - clockDriftAllowance
  | _, _ => true

def refusesArtifactsIssuedBefore (firstExisted : Option Int) (created : Int) : Option Int :=
  if cfg.bucketReplacedALostOne firstExisted created then some (created + cfg.reach) else none

/-- What `record_unique` answers once the entry is created. -/
def isFresh (issued : Int) (firstExisted : Option Int) (created : Int) : Bool :=
  match cfg.refusesArtifactsIssuedBefore firstExisted created with
  | some before => ¬ issued < before
  | none => true

end ReplayGuardConfig

def Agree (clock now : Int) : Prop :=
  now - clockDriftAllowance ≤ clock ∧ clock ≤ now + clockDriftAllowance
deriving Decidable

/-- The bucket: when it was created, and when each entry was. -/
structure NonceBucket (N : Type*) where
  created : Int
  entries : N → Option Int

namespace NonceBucket

variable [DecidableEq N]

def put (bucket : NonceBucket N) (nonce : N) (time : Int) : NonceBucket N :=
  { bucket with entries := Function.update bucket.entries nonce (some time) }

def forget (bucket : NonceBucket N) (nonce : N) : NonceBucket N :=
  { bucket with entries := Function.update bucket.entries nonce none }

end NonceBucket

/-- Where a call of `record_unique` stands. -/
inductive GuardPc (N : Type*)
  | idle
  | binding (nonce : N)
  | creating (nonce : N)
  | created (nonce : N)
  | dated (nonce : N) (created : Int)

def GuardPc.wants : GuardPc N → Option N
  | .binding nonce | .creating nonce => some nonce
  | _ => none

/-- The broker's clock and bucket, the durable anchor and what each replica has read of it, and the
calls. `recorded` are the entries created, with their times, and `fresh` the nonces answered fresh.
-/
structure ReplayRun (N ρ ι : Type*) where
  now : Int
  bucket : Option (NonceBucket N)
  anchor : Option Int
  firstExisted : ρ → Option Int
  calls : ι → GuardPc N
  recorded : List (N × Int)
  fresh : List N

inductive ReplayAct (N ρ ι : Type*)
  | tick (time : Nat)
  | wipe (time : Nat)
  | recreate
  | expire (nonce : N)
  | stray (nonce : N)
  | bind (r : ρ) (clock : Int) (replied : Bool)
  | recordUnique (i : ι) (nonce : N) (clock : Int)
  | readAnchor (i : ι) (clock : Int) (replied : Bool)
  | anchorFails (i : ι)
  | create (i : ι)
  | dateCreated (i : ι)
  | answer (i : ι)
  | raise (i : ι)

namespace ReplayRun

variable [DecidableEq N] [DecidableEq ρ] [DecidableEq ι]

-- every nonce is signed with one issue time, and every call is made on one replica
variable (cfg : ReplayGuardConfig) (issued : N → Int) (replica : ι → ρ)

def goto (s : ReplayRun N ρ ι) (i : ι) (pc : GuardPc N) : ReplayRun N ρ ι :=
  { s with calls := Function.update s.calls i pc }

/-- `first_existed`: the anchor keeps the first time it is given. The replica knows it from the
reply. -/
def stamp (s : ReplayRun N ρ ι) (r : ρ) (clock : Int) (replied : Bool) : ReplayRun N ρ ι :=
  let first := s.anchor.getD clock
  { s with
    anchor := some first
    firstExisted :=
      if replied then Function.update s.firstExisted r (some first) else s.firstExisted }

/-- `_read_anchor`. The clock is read before the anchor is reached, so it may be behind. -/
def readAnchor (s : ReplayRun N ρ ι) (r : ρ) (clock : Int) (replied : Bool) :
    Option (ReplayRun N ρ ι) :=
  if cfg.anchored ∧ s.firstExisted r = none then
    if clock ≤ s.now + clockDriftAllowance then some (s.stamp r clock replied) else none
  else some s

def step (s : ReplayRun N ρ ι) : ReplayAct N ρ ι → Option (ReplayRun N ρ ι)
  | .tick time => some { s with now := s.now + time }
  | .wipe time => some { s with bucket := none, now := s.now + time + 1 }
  | .recreate =>
    match s.bucket with
    | none => some { s with bucket := some ⟨s.now, fun _ => none⟩ }
    | some _ => none
  | .expire nonce =>
    match s.bucket with
    | some bucket =>
      if ∃ time ∈ bucket.entries nonce, time + cfg.ttl ≤ s.now then
        some { s with bucket := some (bucket.forget nonce) }
      else none
    | none => none
  | .stray nonce =>
    match s.bucket with
    | some bucket =>
      if bucket.entries nonce = none then
        some { s with bucket := some (bucket.put nonce s.now) }
      else none
    | none => none
  | .bind r clock replied => s.readAnchor cfg r clock replied
  | .recordUnique i nonce clock =>
    match s.calls i with
    | .idle =>
      -- the verifier has accepted the artifact by its clock
      if Agree clock s.now ∧ cfg.IssueTimeIsFresh (issued nonce) clock then
        some (s.goto i (.binding nonce))
      else none
    | _ => none
  | .readAnchor i clock replied =>
    match s.calls i with
    | .binding nonce =>
      (s.readAnchor cfg (replica i) clock replied).map (goto · i (.creating nonce))
    | _ => none
  | .anchorFails i =>
    match s.calls i with
    | .binding nonce => some (s.goto i (.creating nonce))
    | _ => none
  | .create i =>
    match s.calls i, s.bucket with
    | .creating nonce, some bucket =>
      match bucket.entries nonce with
      | none => some ({ s with
          bucket := some (bucket.put nonce s.now)
          recorded := (nonce, s.now) :: s.recorded }.goto i (.created nonce))
      | some _ => some (s.goto i .idle)
    | _, _ => none
  | .dateCreated i =>
    match s.calls i, s.bucket with
    | .created nonce, some bucket => some (s.goto i (.dated nonce bucket.created))
    | _, _ => none
  | .answer i =>
    match s.calls i with
    | .dated nonce created =>
      some ({ s with
        fresh :=
          if cfg.isFresh (issued nonce) (s.firstExisted (replica i)) created then nonce :: s.fresh
          else s.fresh }.goto i .idle)
    | _ => none
  | .raise i => some (s.goto i .idle)

def system : StepSystem (ReplayRun N ρ ι) (ReplayAct N ρ ι) := ⟨step cfg issued replica⟩

def start (now : Int) : ReplayRun N ρ ι where
  now := now
  bucket := none
  anchor := none
  firstExisted _ := none
  calls _ := .idle
  recorded := []
  fresh := []

/-- The artifact of a call is still young enough for its verifier when the bucket takes the create,
by some clock within the allowance. -/
def Prompt (s : ReplayRun N ρ ι) : ReplayAct N ρ ι → Prop
  | .create i => ∀ nonce ∈ (s.calls i).wants,
      s.now - clockDriftAllowance - cfg.maxAge ≤ issued nonce
  | _ => True

instance (s : ReplayRun N ρ ι) (a : ReplayAct N ρ ι) : Decidable (Prompt cfg issued s a) := by
  unfold Prompt
  split <;> infer_instance

/-- Once a nonce is recorded, a bucket is only created when the anchor is older than it by more than
the allowance. -/
def AnchorOlder (s : ReplayRun N ρ ι) : ReplayAct N ρ ι → Prop
  | .recreate => cfg.anchored = true → s.recorded ≠ [] →
      ∃ first ∈ s.anchor, first < s.now - clockDriftAllowance
  | _ => True

instance (s : ReplayRun N ρ ι) (a : ReplayAct N ρ ι) : Decidable (AnchorOlder cfg s a) := by
  unfold AnchorOlder
  split <;> infer_instance

inductive Moves (s : ReplayRun N ρ ι) : ReplayAct N ρ ι → ReplayRun N ρ ι → Prop
  | tick (time : Nat) : Moves s (.tick time) { s with now := s.now + time }
  | wipe (time : Nat) : Moves s (.wipe time) { s with bucket := none, now := s.now + time + 1 }
  | recreate (hnone : s.bucket = none) :
    Moves s .recreate { s with bucket := some ⟨s.now, fun _ => none⟩ }
  | expire (nonce : N) (bucket : NonceBucket N) (time : Int) (hbucket : s.bucket = some bucket)
      (hentry : bucket.entries nonce = some time) (httl : time + cfg.ttl ≤ s.now) :
    Moves s (.expire nonce) { s with bucket := some (bucket.forget nonce) }
  | stray (nonce : N) (bucket : NonceBucket N) (hbucket : s.bucket = some bucket)
      (hentry : bucket.entries nonce = none) :
    Moves s (.stray nonce) { s with bucket := some (bucket.put nonce s.now) }
  | stamp (a : ReplayAct N ρ ι) (r : ρ) (clock : Int) (replied : Bool) :
    Moves s a (s.stamp r clock replied)
  | stampAndBind (a : ReplayAct N ρ ι) (i : ι) (nonce : N) (clock : Int) (replied : Bool)
      (hpc : s.calls i = .binding nonce) :
    Moves s a ((s.stamp (replica i) clock replied).goto i (.creating nonce))
  | bind (a : ReplayAct N ρ ι) (i : ι) (nonce : N) (hpc : s.calls i = .binding nonce) :
    Moves s a (s.goto i (.creating nonce))
  | recordUnique (i : ι) (nonce : N) (clock : Int) (hpc : s.calls i = .idle)
      (hissued : issued nonce ≤ s.now + cfg.reach) :
    Moves s (.recordUnique i nonce clock) (s.goto i (.binding nonce))
  | create (i : ι) (nonce : N) (bucket : NonceBucket N) (hpc : s.calls i = .creating nonce)
      (hbucket : s.bucket = some bucket) (hentry : bucket.entries nonce = none) :
    Moves s (.create i)
      ({ s with
        bucket := some (bucket.put nonce s.now)
        recorded := (nonce, s.now) :: s.recorded }.goto i (.created nonce))
  | dateCreated (i : ι) (nonce : N) (bucket : NonceBucket N) (hpc : s.calls i = .created nonce)
      (hbucket : s.bucket = some bucket) :
    Moves s (.dateCreated i) (s.goto i (.dated nonce bucket.created))
  | fresh (i : ι) (nonce : N) (created : Int) (hpc : s.calls i = .dated nonce created)
      (hfresh : cfg.isFresh (issued nonce) (s.firstExisted (replica i)) created = true) :
    Moves s (.answer i) ({ s with fresh := nonce :: s.fresh }.goto i .idle)
  | ended (a : ReplayAct N ρ ι) (i : ι) : Moves s a (s.goto i .idle)
  | stutter (a : ReplayAct N ρ ι) : Moves s a s

variable {cfg issued replica} {s s' : ReplayRun N ρ ι} {a : ReplayAct N ρ ι}

omit [DecidableEq N] [DecidableEq ι] in
lemma readAnchor_eq_some {r : ρ} {clock : Int} {replied : Bool}
    (h : s.readAnchor cfg r clock replied = some s') : s' = s.stamp r clock replied ∨ s' = s := by
  simp only [readAnchor] at h
  split_ifs at h <;> cases h
  · exact .inl rfl
  · exact .inr rfl

theorem moves_of_step (hst : step cfg issued replica s a = some s') :
    Moves cfg issued replica s a s' := by
  cases a with
    (simp only [step] at hst; first | cases hst | (try split at hst <;> try cases hst))
  | tick time => exact .tick time
  | wipe time => exact .wipe time
  | recreate => next hnone => exact .recreate hnone
  | expire nonce =>
    next bucket hbucket =>
      split_ifs at hst with h
      cases hst
      obtain ⟨time, he, httl⟩ := h
      exact .expire nonce bucket time hbucket he httl
  | stray nonce =>
    next bucket hbucket =>
      split_ifs at hst with he
      cases hst
      exact .stray nonce bucket hbucket he
  | bind r clock replied =>
    obtain rfl | rfl := readAnchor_eq_some hst
    · exact .stamp _ r clock replied
    · exact .stutter _
  | recordUnique i nonce clock =>
    next hpc =>
      simp only [Option.ite_none_right_eq_some, Option.some.injEq] at hst
      obtain ⟨⟨⟨-, hc⟩, -, hissued⟩, rfl⟩ := hst
      refine .recordUnique i nonce clock hpc ?_
      rw [ReplayGuardConfig.reach]
      omega
  | readAnchor i clock replied =>
    next nonce hpc =>
      obtain ⟨t, hread, rfl⟩ := Option.map_eq_some_iff.1 hst
      obtain rfl | rfl := readAnchor_eq_some hread
      · exact .stampAndBind _ i nonce clock replied hpc
      · exact .bind _ i nonce hpc
  | anchorFails i => next nonce hpc => exact .bind _ i nonce hpc
  | create i =>
    next nonce bucket hpc hbucket =>
      split at hst <;> cases hst
      next he => exact .create i nonce bucket hpc hbucket he
      next => exact .ended _ i
  | dateCreated i =>
    next nonce bucket hpc hbucket => exact .dateCreated i nonce bucket hpc hbucket
  | answer i =>
    next nonce created hpc =>
      split_ifs with hfr
      · exact .fresh i nonce created hpc hfr
      · exact .ended _ i
  | raise i => exact .ended _ i

end ReplayRun

end ThreeTears
