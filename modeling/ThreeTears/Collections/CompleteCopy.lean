import ThreeTears.Collections.CopyTable
import ThreeTears.Lib.Families
import ThreeTears.Lib.StepSystem

/-!
# An L1 table that is a whole copy

`CompleteCopy.warm` makes a collection's L1 table hold exactly the rows of its L3 table. A row that
changes in the L1 is told to the copy, which is not proven complete from then on; a warm during
which one was told is not recorded. Warms go on at once on one event loop, and a warm's last part,
from the replacement of the L1's rows, has the loop to itself. Large evictions and rows are written
on worker threads and told on the loop after that.
-/

namespace ThreeTears

variable {R V δ ω θ : Type*}

/-- What a copy that is not proven complete says of itself. -/
inductive WhyNot (δ : Type*)
  | neverWarmed
  | beingWarmed
  | warmFailed
  | refused (failure : CopyFailure δ)
  | changedInWarm
  | changedSince

/-- Where a warm stands, with the changes counted when it began. For the record: whether a row of
the L1 has changed since. -/
inductive WarmPc (R V δ : Type*)
  | idle
  | copying (changes : Nat) (pos : CopyPos R V δ) (disturbed : Bool)
  | replaced (changes : Nat) (before : KeyFingerprint δ) (rows : List (R × V)) (disturbed : Bool)

inductive ThreadPc (R V : Type*)
  | idle
  | storing (k : R) (v : Option V)
  | deleting (ks : List R)
  | telling (ks : List R)

structure WarmRecord (R V δ : Type*) where
  proof : KeyFingerprint δ
  rows : List (R × V)
  disturbed : Bool

structure CompleteCopy (R V δ ω θ : Type*) [LinearOrder R] where
  l3 : KeyedTable R V
  l1 : KeyedTable R V
  proof : Option (KeyFingerprint δ)
  whyNot : WhyNot δ
  changes : Nat
  warms : ω → WarmPc R V δ
  threads : θ → ThreadPc R V
  ending : Option ω
  recorded : List (WarmRecord R V δ)

inductive CopyAct (R V ω θ : Type*) [LinearOrder R]
  | writeL3 (t : KeyedTable R V)
  | warm (w : ω)
  | read (w : ω)
  | replace (w : ω)
  | record (w : ω)
  | fail (w : ω)
  | upsert (k : R) (v : Option V)
  | evict (ks dropped : List R)
  | keepOffLoop (j : θ) (k : R) (v : Option V)
  | evictOffLoop (j : θ) (ks : List R)
  | threadStore (j : θ) (overtaken : Bool)
  | threadDelete (j : θ) (k : R)
  | threadEnd (j : θ)
  | tell (j : θ)

def l1EvictOffLoopKeys : Nat := 64

def WarmPc.disturb : WarmPc R V δ → WarmPc R V δ
  | .idle => .idle
  | .copying changes pos _ => .copying changes pos true
  | .replaced changes before rows _ => .replaced changes before rows true

def WarmPc.begun : WarmPc R V δ → Option (Nat × Bool)
  | .idle => none
  | .copying changes _ disturbed => some (changes, disturbed)
  | .replaced changes _ _ disturbed => some (changes, disturbed)

/-- A thread may have changed the L1, and the listeners have not heard of it. -/
def ThreadPc.Unheard : ThreadPc R V → Prop
  | .deleting _ => True
  | .telling _ => True
  | _ => False

instance (pc : ThreadPc R V) : Decidable pc.Unheard := by
  cases pc <;> dsimp only [ThreadPc.Unheard] <;> infer_instance

namespace CompleteCopy

variable [LinearOrder R]

def require (s : CompleteCopy R V δ ω θ) : Except (WhyNot δ) (KeyFingerprint δ) :=
  match s.proof with
  | some proof => .ok proof
  | none => .error s.whyNot

def changed (s : CompleteCopy R V δ ω θ) (ks : List R) : CompleteCopy R V δ ω θ :=
  if ks = [] then s
  else { s with proof := none, whyNot := .changedSince, changes := s.changes + ks.length }

def setL1 (s : CompleteCopy R V δ ω θ) (t : KeyedTable R V) : CompleteCopy R V δ ω θ :=
  { s with l1 := t, warms := fun w => (s.warms w).disturb }

def stored (t : KeyedTable R V) (k : R) : Option V → KeyedTable R V
  | some v => t.insert k v
  | none => t.erase k

variable [DecidableEq δ] [DecidableEq ω] [DecidableEq θ] (c : CopyReader R V δ)

def setWarm (s : CompleteCopy R V δ ω θ) (w : ω) (pc : WarmPc R V δ) : CompleteCopy R V δ ω θ :=
  { s with warms := Function.update s.warms w pc }

def setThread (s : CompleteCopy R V δ ω θ) (j : θ) (pc : ThreadPc R V) :
    CompleteCopy R V δ ω θ := { s with threads := Function.update s.threads j pc }

def refuse (s : CompleteCopy R V δ ω θ) (w : ω) (why : WhyNot δ) : CompleteCopy R V δ ω θ :=
  { s.setWarm w .idle with whyNot := why, ending := none }

def step (s : CompleteCopy R V δ ω θ) : CopyAct R V ω θ → Option (CompleteCopy R V δ ω θ)
  | .writeL3 t => some { s with l3 := t }
  | .warm w =>
    match s.ending, s.warms w with
    | none, .idle => some { s.setWarm w (.copying s.changes .counting false) with
        proof := none
        whyNot := .beingWarmed }
    | _, _ => none
  | .read w =>
    match s.ending, s.warms w with
    | none, .copying changes pos disturbed =>
      match c.next s.l3 pos with
      | .reading pos => some (s.setWarm w (.copying changes pos disturbed))
      | .ended .. => none
    | _, _ => none
  | .replace w =>
    match s.ending, s.warms w with
    | none, .copying changes (.deciding before after rows) disturbed =>
      match CopyReader.refusal before after rows with
      | some failure => some (s.refuse w (.refused failure))
      | none => some { s.setWarm w (.replaced changes before rows disturbed) with
          l1 := .ofRows rows
          ending := some w }
    | _, _ => none
  | .record w =>
    match s.warms w with
    | .replaced changes before rows disturbed =>
      match c.heldDiffers s.l1 rows before.rowCount with
      | some failure => some (s.refuse w (.refused failure))
      | none =>
        if s.changes ≠ changes then some (s.refuse w .changedInWarm)
        else some { s.setWarm w .idle with
          proof := some before
          ending := none
          recorded := ⟨before, rows, disturbed⟩ :: s.recorded }
    | _ => none
  | .fail w =>
    match s.ending, s.warms w with
    | none, .copying .. => some (s.refuse w .warmFailed)
    | _, _ => none
  | .upsert k v =>
    match s.ending with
    | none => some ((s.setL1 (stored s.l1 k v)).changed [k])
    | some _ => none
  | .evict ks dropped =>
    if s.ending.isNone ∧ ks ≠ [] ∧ dropped ⊆ ks then
      some ((s.setL1 (dropped.foldl .erase s.l1)).changed ks)
    else none
  | .keepOffLoop j k v =>
    match s.ending, s.threads j with
    | none, .idle => some (s.setThread j (.storing k v))
    | _, _ => none
  | .evictOffLoop j ks =>
    match s.ending, s.threads j with
    | none, .idle =>
      if l1EvictOffLoopKeys ≤ ks.length then some (s.setThread j (.deleting ks)) else none
    | _, _ => none
  | .threadStore j overtaken =>
    match s.threads j with
    | .storing k v => some ((s.setL1 (stored s.l1 k v)).setThread j
        -- a row that was evicted or written meanwhile is deleted again
        (if overtaken then .deleting [k] else .telling [k]))
    | _ => none
  | .threadDelete j k =>
    match s.threads j with
    | .deleting ks => if k ∈ ks then some (s.setL1 (s.l1.erase k)) else none
    | _ => none
  | .threadEnd j =>
    match s.threads j with
    | .deleting ks => some (s.setThread j (.telling ks))
    | _ => none
  | .tell j =>
    match s.ending, s.threads j with
    | none, .telling ks => some ((s.setThread j .idle).changed ks)
    | _, _ => none

def system : StepSystem (CompleteCopy R V δ ω θ) (CopyAct R V ω θ) := ⟨step c⟩

def start (l3 l1 : KeyedTable R V) : CompleteCopy R V δ ω θ where
  l3 := l3
  l1 := l1
  proof := none
  whyNot := .neverWarmed
  changes := 0
  warms _ := .idle
  threads _ := .idle
  ending := none
  recorded := []

/-- A warm that is going to be refused for a change of the L1 does not put its rows into it while
another's proof stands; worker threads change the L1 only while no proof stands and no warm has the
loop, and tell it before a warm is recorded. -/
def Orderly (s : CompleteCopy R V δ ω θ) : CopyAct R V ω θ → Prop
  | .replace w => s.proof.isSome → ∀ begun ∈ (s.warms w).begun, s.changes = begun.1
  | .record w => (∀ begun ∈ (s.warms w).begun, s.changes = begun.1) →
      ∀ j, ¬ (s.threads j).Unheard
  | .threadStore _ _ => s.proof = none ∧ s.ending = none
  | .threadDelete _ _ => s.proof = none ∧ s.ending = none
  | _ => True

instance [Fintype θ] (s : CompleteCopy R V δ ω θ) (a) : Decidable (s.Orderly a) := by
  unfold Orderly
  split <;> infer_instance

inductive Moves (s : CompleteCopy R V δ ω θ) :
    CopyAct R V ω θ → CompleteCopy R V δ ω θ → Prop
  | writeL3 (t : KeyedTable R V) : Moves s (.writeL3 t) { s with l3 := t }
  | begins (w : ω) (hending : s.ending = none) :
    Moves s (.warm w) { s.setWarm w (.copying s.changes .counting false) with
      proof := none
      whyNot := .beingWarmed }
  | reads (w : ω) (changes : Nat) (pos pos' : CopyPos R V δ) (disturbed : Bool)
      (hpc : s.warms w = .copying changes pos disturbed)
      (hread : c.next s.l3 pos = .reading pos') :
    Moves s (.read w) (s.setWarm w (.copying changes pos' disturbed))
  | leaves (a : CopyAct R V ω θ) (w : ω) (why : WhyNot δ) (hending : s.ending = none) :
    Moves s a (s.refuse w why)
  | replaces (w : ω) (changes : Nat) (before after : KeyFingerprint δ) (rows : List (R × V))
      (disturbed : Bool) (hending : s.ending = none)
      (hpc : s.warms w = .copying changes (.deciding before after rows) disturbed)
      (hrefusal : CopyReader.refusal before after rows = none) :
    Moves s (.replace w) { s.setWarm w (.replaced changes before rows disturbed) with
      l1 := .ofRows rows
      ending := some w }
  | refuses (w : ω) (changes : Nat) (before : KeyFingerprint δ) (rows : List (R × V))
      (disturbed : Bool) (why : WhyNot δ) (hpc : s.warms w = .replaced changes before
        rows disturbed)
      (hwhy : c.heldDiffers s.l1 rows before.rowCount ≠ none ∨ s.changes ≠ changes) :
    Moves s (.record w) (s.refuse w why)
  | records (w : ω) (changes : Nat) (before : KeyFingerprint δ) (rows : List (R × V))
      (disturbed : Bool) (hpc : s.warms w = .replaced changes before rows disturbed)
      (hchanges : s.changes = changes) :
    Moves s (.record w) { s.setWarm w .idle with
      proof := some before
      ending := none
      recorded := ⟨before, rows, disturbed⟩ :: s.recorded }
  | changes (a : CopyAct R V ω θ) (t : KeyedTable R V) (ks : List R) (hending : s.ending = none)
      (hks : ks ≠ []) : Moves s a ((s.setL1 t).changed ks)
  | hands (a : CopyAct R V ω θ) (j : θ) (pc : ThreadPc R V) (hpc : s.threads j = .idle)
      (hnext : (∃ k v, pc = .storing k v) ∨ ∃ ks, ks ≠ [] ∧ pc = .deleting ks) :
    Moves s a (s.setThread j pc)
  | stores (j : θ) (overtaken : Bool) (k : R) (pc : ThreadPc R V) (t : KeyedTable R V)
      (hnext : pc = .deleting [k] ∨ pc = .telling [k]) :
    Moves s (.threadStore j overtaken) ((s.setL1 t).setThread j pc)
  | deletes (j : θ) (k : R) (ks : List R) (t : KeyedTable R V) (hpc : s.threads j = .deleting ks) :
    Moves s (.threadDelete j k) (s.setL1 t)
  | ends (j : θ) (ks : List R) (hpc : s.threads j = .deleting ks) :
    Moves s (.threadEnd j) (s.setThread j (.telling ks))
  | tells (j : θ) (ks : List R) (hending : s.ending = none) (hpc : s.threads j = .telling ks) :
    Moves s (.tell j) ((s.setThread j .idle).changed ks)

variable {c} {s s' : CompleteCopy R V δ ω θ} {a : CopyAct R V ω θ}

theorem moves_of_step (ht : s.step c a = some s') : s.Moves c a s' := by
  cases a with (simp only [step] at ht; try split at ht <;> try cases ht)
  | writeL3 t =>
    cases ht
    exact .writeL3 t
  | warm w => next hending hpc => exact .begins w hending
  | read w =>
    next changes pos disturbed _ hpc =>
      split at ht <;> cases ht
      next pos' hread => exact .reads w changes pos pos' disturbed hpc hread
  | replace w =>
    next changes before after rows disturbed hending hpc =>
      split at ht <;> cases ht
      next => exact .leaves _ w _ hending
      next hrefusal => exact .replaces w changes before after rows disturbed hending hpc hrefusal
  | record w =>
    next changes before rows disturbed hpc =>
      split at ht <;> (try split_ifs at ht with hchanges) <;> cases ht
      next hd =>
        exact .refuses w changes before rows disturbed _ hpc (.inl (by rw [hd]; exact nofun))
      next => exact .refuses w changes before rows disturbed _ hpc (.inr hchanges)
      next => exact .records w changes before rows disturbed hpc (not_not.1 hchanges)
  | fail w => next hending hpc => exact .leaves _ w _ hending
  | upsert k => next hending => exact .changes _ _ [k] hending (List.cons_ne_nil _ _)
  | evict ks =>
    next hb => exact .changes _ _ ks (Option.isNone_iff_eq_none.1 hb.1) hb.2.1
  | keepOffLoop j k v => next hending hpc => exact .hands _ j _ hpc (.inl ⟨k, v, rfl⟩)
  | evictOffLoop j ks =>
    next hpc =>
      split_ifs at ht with hl
      cases ht
      refine .hands _ j _ hpc (.inr ⟨ks, ?_, rfl⟩)
      rintro rfl
      rw [List.length_nil] at hl
      exact absurd hl (by decide)
  | threadStore j overtaken =>
    next k _ _ =>
      refine .stores j overtaken k _ _ ?_
      cases overtaken
      · exact .inr rfl
      · exact .inl rfl
  | threadDelete j k =>
    next ks hpc =>
      split_ifs at ht
      cases ht
      exact .deletes j k ks _ hpc
  | threadEnd j => next ks hpc => exact .ends j ks hpc
  | tell j => next ks hending hpc => exact .tells j ks hending hpc

end CompleteCopy

end ThreeTears
