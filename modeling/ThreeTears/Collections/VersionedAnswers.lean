import ThreeTears.Collections.VersionsRow
import ThreeTears.Lib.StepSystem

/-!
# Answers stored by version

`VersionedAnswers` stores an answer for a version and a request digest. A call of `answer` records
both, reads the answer or computes it under the key's build lock, and takes it back if the version
was retired meanwhile. `retire_older_than` raises the floor, deletes the answers that the shards of
the older versions name, and forgets a version whose shards are empty.

A compare-and-set on a row of the index or on an answer is one step of a call on any replica. A call
can be cut off between any two, and its build lock lapses. The pull-through behind `answer` seeds L2
at the revision its look found; a deleted key is purged later.
-/

namespace ThreeTears

open Function

structure AnswerKeys (V D S : Type*) where
  order : V → Int
  scope : V → S
  shard : D → Fin 16

/-- An answer's key in L2, revision `0` without a message. -/
structure AnswerEntry where
  revision : Nat
  present : Bool
  deriving DecidableEq

/-- A call of `answer`. `looked` is the revision its pull-through found. `early`: it found no answer
under the build lock while its version was not retired. `ran`: it computed. -/
inductive AnswerPc
  | recordVersion
  | recordDigest
  | look
  | waiting (looked : Nat)
  | holding (looked : Nat)
  | computing (looked : Nat) (early : Bool)
  | releasing (looked : Nat) (ran : Option Bool)
  | seeding (looked : Nat) (ran : Option Bool)
  | confirming (early : Bool)
  | takingBack (early : Bool)
  | dropping
  deriving DecidableEq

/-- Where `_clear_versions` is: the versions left, the one at hand with its order, its shards left,
and whether those before were emptied. -/
structure ClearPass (V : Type*) where
  todo : List (V × Int)
  version : V
  older : Int
  shards : List (Fin 16)
  emptied : Bool
  deriving DecidableEq

/-- A call of `retire_older_than`. -/
inductive RetirePc (V D : Type*)
  | raising (order : Int)
  | versions (todo : List (V × Int))
  | shards (pass : ClearPass V)
  | digests (pass : ClearPass V) (shard : Fin 16) (left handled : List D)
  | pausing (pass : ClearPass V) (shard : Fin 16) (left handled : List D) (digest : D)
  | paused (pass : ClearPass V) (shard : Fin 16) (left handled : List D) (digest : D)
  | resuming (pass : ClearPass V) (shard : Fin 16) (left handled : List D) (digest : D)
  deriving DecidableEq

inductive AnswerCall (V D S : Type*)
  | answer (version : V) (digest : D) (pc : AnswerPc)
  | retire (scope : S) (pc : RetirePc V D)
  deriving DecidableEq

structure AnswerRun (V D S ι : Type*) where
  rows : S → Option (VersionsRow V)
  shards : V → Fin 16 → Option (List D)
  answers : V → D → AnswerEntry
  locks : V → D → Option ι
  calls : ι → Option (AnswerCall V D S)
  sequence : Nat
  touched : List (V × D)
  touchedShards : List (V × Fin 16)

inductive AnswerAct (V D S ι : Type*)
  | answer (i : ι) (version : V) (digest : D)
  | retire (i : ι) (scope : S) (order : Int)
  | go (i : ι)
  | lock (i : ι)
  | held (i : ι)
  | version (i : ι) (version : V) (older : Int)
  | digest (i : ι) (digest : D)
  | cut (i : ι)
  | lapse (version : V) (digest : D)
  | purge (version : V) (digest : D)
  | purgeShard (version : V) (shard : Fin 16)

/-- Whether a call computed, and if so whether it was early, until it has taken its answer back. -/
def AnswerPc.ran : AnswerPc → Option Bool
  | .releasing _ ran | .seeding _ ran => ran
  | .confirming early | .takingBack early => some early
  | .recordVersion | .recordDigest | .look | .waiting _ | .holding _ | .computing _ _
  | .dropping => none

def AnswerCall.ran {V D S : Type*} : AnswerCall V D S → Option Bool
  | .answer _ _ pc => pc.ran
  | .retire _ _ => none

def AnswerCall.locked {V D S : Type*} : AnswerCall V D S → Option (V × D)
  | .answer v d (.holding _) | .answer v d (.computing _ _) | .answer v d (.releasing _ _) =>
    some (v, d)
  | .retire _ (.paused pass _ _ _ d) | .retire _ (.resuming pass _ _ _ d) => some (pass.version, d)
  | _ => none

namespace AnswerRun

variable {V D S ι : Type*} [DecidableEq V] [DecidableEq D] [DecidableEq S] [DecidableEq ι]
  (κ : AnswerKeys V D S)

-- named, so that `∈` is decided by one term in every module
local instance lawful : LawfulBEq (V × Int) := inferInstance

def start : AnswerRun V D S ι where
  rows _ := none
  shards _ _ := none
  answers _ _ := ⟨0, false⟩
  locks _ _ := none
  calls _ := none
  sequence := 0
  touched := []
  touchedShards := []

variable (s : AnswerRun V D S ι)

def retired (v : V) : Bool := VersionsRow.refuses (s.rows (κ.scope v)) (κ.order v)

def setCall (i : ι) (call : Option (AnswerCall V D S)) : AnswerRun V D S ι :=
  { s with calls := update s.calls i call }

def setRow (scope : S) (row : Option (VersionsRow V)) : AnswerRun V D S ι :=
  { s with rows := update s.rows scope row }

def setShard (v : V) (x : Fin 16) (row : Option (List D)) : AnswerRun V D S ι :=
  { s with shards := update s.shards v (update (s.shards v) x row) }

def setLock (v : V) (d : D) (holder : Option ι) : AnswerRun V D S ι :=
  { s with locks := update s.locks v (update (s.locks v) d holder) }

def push (v : V) (d : D) (present : Bool) : AnswerRun V D S ι :=
  { s with
    answers := update s.answers v
      (update (s.answers v) d ⟨s.sequence + 1, present⟩)
    sequence := s.sequence + 1 }

/-- `_delete_present` on the answer. -/
def deletePresent (v : V) (d : D) : AnswerRun V D S ι :=
  if (s.answers v d).present then s.push v d false else s

def purged (v : V) (d : D) : AnswerRun V D S ι :=
  { s with
    answers := update s.answers v (update (s.answers v) d ⟨0, false⟩) }

def touch (v : V) (d : D) : AnswerRun V D S ι := { s with touched := (v, d) :: s.touched }

def touchShard (v : V) (x : Fin 16) : AnswerRun V D S ι :=
  if s.shards v x = none then { s with touchedShards := (v, x) :: s.touchedShards } else s

section

variable {s} {v v' : V} {d d' : D}

omit [DecidableEq V] [DecidableEq D] [DecidableEq ι] in
lemma rows_setRow (sco scope' : S) (row : Option (VersionsRow V)) :
    (s.setRow sco row).rows scope' = if scope' = sco then row else s.rows scope' :=
  update_apply ..

private lemma update_update_apply {A B C : Type*} [DecidableEq A] [DecidableEq B] (f : A → B → C)
    (a a' : A) (b b' : B) (x : C) : update f a (update (f a) b x) a' b' =
      if a' = a ∧ b' = b then x else f a' b' := by
  obtain rfl | ha := eq_or_ne a' a
  · rw [update_self, update_apply]
    simp
  · rw [update_of_ne ha, if_neg fun h => ha h.1]

omit [DecidableEq D] [DecidableEq S] [DecidableEq ι] in
lemma shards_setShard (v v' : V) (x x' : Fin 16) (row : Option (List D)) :
    (s.setShard v x row).shards v' x' = if v' = v ∧ x' = x then row else s.shards v' x' :=
  update_update_apply ..

omit [DecidableEq S] [DecidableEq ι] in
lemma locks_setLock (v v' : V) (d d' : D) (holder : Option ι) :
    (s.setLock v d holder).locks v' d' = if v' = v ∧ d' = d then holder else s.locks v' d' :=
  update_update_apply ..

omit [DecidableEq S] [DecidableEq ι] in
lemma answers_push (v v' : V) (d d' : D) (present : Bool) : (s.push v d present).answers v' d' =
      if v' = v ∧ d' = d then ⟨s.sequence + 1, present⟩ else s.answers v' d' :=
  update_update_apply ..

omit [DecidableEq S] [DecidableEq ι] in
lemma answers_purged (v v' : V) (d d' : D) :
    (s.purged v d).answers v' d' = if v' = v ∧ d' = d then ⟨0, false⟩ else s.answers v' d' :=
  update_update_apply ..

omit [DecidableEq S] [DecidableEq ι] in
lemma present_deletePresent : ((s.deletePresent v d).answers v' d').present ↔
    (s.answers v' d').present ∧ ¬(v' = v ∧ d' = d) := by
  rw [deletePresent]
  split_ifs with hr
  · rw [answers_push]
    split_ifs with hkey <;> simp [hkey]
  constructor
  · rintro h
    exact ⟨h, fun ⟨hv, hd⟩ => hr (hv ▸ hd ▸ h)⟩
  · exact And.left

omit [DecidableEq S] [DecidableEq ι] in
lemma deletePresent_eq (s : AnswerRun V D S ι) (v : V) (d : D) : s.deletePresent v d = { s with
      answers := (s.deletePresent v d).answers
      sequence := (s.deletePresent v d).sequence } := by
  rw [deletePresent]
  split_ifs <;> rfl

omit [DecidableEq V] [DecidableEq D] [DecidableEq S] [DecidableEq ι] in
lemma touchShard_eq (s : AnswerRun V D S ι) (v : V) (x : Fin 16) :
    s.touchShard v x = { s with touchedShards := (s.touchShard v x).touchedShards } := by
  rw [touchShard]
  split_ifs <;> rfl

end

/-! ### A call of `answer` -/

/-- `_confirm` takes the answer back when the floor is at its version, or the row names it no more.
-/
def confirmsRetired (v : V) : Bool :=
  match s.rows (κ.scope v) with
  | none => true
  | some row => row.floor.any fun floor => (row.members.get v).getD floor ≤ floor

def answerStep (i : ι) (v : V) (d : D) : AnswerPc → Option (AnswerRun V D S ι)
  | .recordVersion =>
    let (refused, row) := VersionsRow.addVersion v (κ.order v) (s.rows (κ.scope v))
    some (if refused then s.setCall i none
      else (s.setRow (κ.scope v) row).setCall i (some (.answer v d .recordDigest)))
  | .recordDigest =>
    some ((s.setShard v (κ.shard d)
      (DigestShard.addMember d (s.shards v (κ.shard d)))).setCall i (some (.answer v d .look)))
  | .look =>
    some (s.setCall i (if (s.answers v d).present then none
      else some (.answer v d (.waiting (s.answers v d).revision))))
  | .waiting looked =>
    if (s.answers v d).present then
      some (s.setCall i (some (.answer v d (.seeding looked none))))
    else none
  | .holding looked =>
    some (s.setCall i (some (.answer v d ( if (s.answers v d).present then .releasing looked none
      else .computing looked (! s.retired κ v)))))
  | .computing looked early =>
    some ((s.push v d true).setCall i (some (.answer v d (.releasing looked (some early)))))
  | .releasing looked ran =>
    some ((s.setLock v d none).setCall i (some (.answer v d (.seeding looked ran))))
  | .seeding looked ran =>
    let s' := if (s.answers v d).revision = looked then s.push v d true else s
    some (s'.setCall i (ran.map fun early => .answer v d (.confirming early)))
  | .confirming early =>
    some (s.setCall i (
      if s.confirmsRetired κ v then some (.answer v d (.takingBack early)) else none))
  | .takingBack _ => some ((s.deletePresent v d).setCall i (some (.answer v d .dropping)))
  | .dropping =>
    let row := DigestShard.removeMember d (s.shards v (κ.shard d))
    some ((((s.setShard v (κ.shard d) row).touchShard v (κ.shard d)).touch v d).setCall i none)

/-! ### A call of `retire_older_than` -/

/-- A delete of `_clear_answer`. -/
def clearPresent (v : V) (d : D) : AnswerRun V D S ι :=
  if (s.answers v d).present then (s.deletePresent v d).touch v d else s

def retireStep (i : ι) (scope : S) : RetirePc V D → Option (AnswerRun V D S ι)
  | .raising order =>
    let (raised, row) := VersionsRow.raiseFloor order (s.rows scope)
    some ((s.setRow scope row).setCall i (some (.retire scope (.versions raised.taken))))
  | .versions [] => some (s.setCall i none)
  | .versions (_ :: _) => none
  | .shards pass =>
    match pass.shards with
    | [] =>
      let s' := if pass.emptied then
        s.setRow scope (VersionsRow.forgetVersion pass.version pass.older (s.rows scope)) else s
      some (s'.setCall i (some (.retire scope (.versions pass.todo))))
    | x :: xs =>
      some (s.setCall i (some (.retire scope (.digests { pass with shards := xs } x
        ((s.shards pass.version x).getD []) []))))
  | .digests pass x [] handled =>
    let (emptied, row) := DigestShard.dropHandled handled (s.shards pass.version x)
    some (((s.setShard pass.version x row).touchShard pass.version x).setCall i
      (some (.retire scope (.shards { pass with emptied := pass.emptied && emptied }))))
  | .digests _ _ (_ :: _) _ => none
  | .pausing _ _ _ _ _ => none
  | .paused pass x left handled d =>
    some ((s.clearPresent pass.version d).setCall i
      (some (.retire scope (.resuming pass x left handled d))))
  | .resuming pass x left handled d =>
    some ((s.setLock pass.version d none).setCall i
      (some (.retire scope (.digests pass x left (handled ++ [d])))))

/-- The first delete of `_clear_answer`. -/
def clearAnswer (i : ι) (scope : S) (pass : ClearPass V) (x : Fin 16) (left handled : List D)
    (d : D) : AnswerRun V D S ι :=
  if (s.answers pass.version d).present then
    (s.clearPresent pass.version d).setCall i
      (some (.retire scope (.digests pass x (left.erase d) (handled ++ [d]))))
  else s.setCall i (some (.retire scope (.pausing pass x (left.erase d) handled d)))

def lockStep (i : ι) : AnswerCall V D S → Option (AnswerRun V D S ι)
  | .answer v d (.waiting looked) =>
    if s.locks v d = none then
      some ((s.setLock v d (some i)).setCall i (some (.answer v d (.holding looked))))
    else none
  | .retire scope (.pausing pass x left handled d) =>
    if s.locks pass.version d = none then
      some ((s.setLock pass.version d (some i)).setCall i
        (some (.retire scope (.paused pass x left handled d))))
    else none
  | _ => none

def heldStep (i : ι) : AnswerCall V D S → Option (AnswerRun V D S ι)
  | .retire scope (.pausing pass x left handled _) =>
    some (s.setCall i (some (.retire scope (.digests pass x left handled))))
  | _ => none

def versionStep (i : ι) (v : V) (older : Int) : AnswerCall V D S → Option (AnswerRun V D S ι)
  | .retire scope (.versions todo) =>
    if (v, older) ∈ todo then
      some (s.setCall i (some (.retire scope
        (.shards ⟨todo.erase (v, older), v, older, List.finRange 16, true⟩))))
    else none
  | _ => none

def digestStep (i : ι) (d : D) : AnswerCall V D S → Option (AnswerRun V D S ι)
  | .retire scope (.digests pass x left handled) =>
    if d ∈ left then some (s.clearAnswer i scope pass x left handled d) else none
  | _ => none

def goStep (i : ι) : AnswerCall V D S → Option (AnswerRun V D S ι)
  | .answer v d pc => s.answerStep κ i v d pc
  | .retire scope pc => s.retireStep i scope pc

def begin (i : ι) (call : AnswerCall V D S) : Option (AnswerRun V D S ι) :=
  if s.calls i = none then some (s.setCall i (some call)) else none

def step : AnswerAct V D S ι → Option (AnswerRun V D S ι)
  | .answer i v d => s.begin i (.answer v d .recordVersion)
  | .retire i scope order => s.begin i (.retire scope (.raising order))
  | .go i => (s.calls i).bind (s.goStep κ i)
  | .lock i => (s.calls i).bind (s.lockStep i)
  | .held i => (s.calls i).bind (s.heldStep i)
  | .version i v older => (s.calls i).bind (s.versionStep i v older)
  | .digest i d => (s.calls i).bind (s.digestStep i d)
  | .cut i => some (s.setCall i none)
  | .lapse v d =>
    if (s.locks v d).all fun i => ((s.calls i).bind AnswerCall.locked) ≠ some (v, d) then
      some (s.setLock v d none) else none
  | .purge v d => if (v, d) ∈ s.touched then some (s.purged v d) else none
  | .purgeShard v x => if (v, x) ∈ s.touchedShards then some (s.setShard v x none) else none

def system : StepSystem (AnswerRun V D S ι) (AnswerAct V D S ι) where
  step s a := s.step κ a

/-! ### Steps that a stored answer survives -/

def seeds : AnswerCall V D S → Bool
  | .answer v d (.seeding looked _) => (s.answers v d).revision = looked
  | _ => false

/-- No call is cut off that found no answer under its build lock after its version was retired,
stored one and has not taken it back; no pull-through seeds L2; only a deleted shard is purged. -/
def Sheltered : AnswerAct V D S ι → Prop
  | .cut i => ∀ c ∈ s.calls i, c.ran ≠ some false
  | .go i => ∀ c ∈ s.calls i, ¬ s.seeds c
  | .purgeShard v x => s.shards v x = none
  | .answer .. | .retire .. | .lock _ | .held _ | .version .. | .digest .. | .lapse ..
  | .purge .. => True

instance (a) : Decidable (s.Sheltered a) := by
  unfold Sheltered
  split <;> infer_instance

end AnswerRun

end ThreeTears
