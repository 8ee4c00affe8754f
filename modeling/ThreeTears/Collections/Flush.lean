import ThreeTears.Collections.Toposort

/-!
# Flushing the write buffer

`flush_pending` as a machine that stops at every await: it drains the buffer, persists the fresh
writes in one transaction when they share a backend that has one, and everything else one by one,
and acknowledges or re-enqueues each write. What the store answers is an argument of the step.
-/

namespace ThreeTears

open List

variable {E V : Type*}

inductive PersistAnswer
  | took
  | declined
  | unreadable
  | failed (fkViolation : Bool)
  deriving DecidableEq

/-- What a flush takes from the registry and the collections. -/
structure FlushConfig (E V : Type*) where
  keys : ParentKeys E V
  orderOf : V → Option L2Order
  registered : String → Bool
  backend : String → Option Nat

/-- The retry budgets of a write, `_MAX_FLUSH_RETRIES` and `_FK_RETRY_LIMIT`. -/
def retryLimit (fkViolation : Bool) : Nat := if fkViolation then 100 else 10

/-- Where a flush stands; every list holds writes it drained. -/
inductive FlushPc (E V : Type*)
  | idle
  | draining
  | batch (fresh failed todo took : List (DrainedWrite E V))
  | batchAck (todo failed : List (DrainedWrite E V))
  | entity (todo : List (DrainedWrite E V))
  | acking (w : DrainedWrite E V) (todo : List (DrainedWrite E V))
  | reEnqueuing (w : DrainedWrite E V) (todo : List (DrainedWrite E V))
  | announcing
  deriving DecidableEq

structure WriteBehind (E V : Type*) where
  wb : WriteBuffer (String × E) V
  l3 : String × E → Option V

variable [DecidableEq E]

/-- `_resolve_batch_backend`: the one backend with a transaction that all the writes share. -/
def resolveBatchBackend (cfg : FlushConfig E V) : Option Nat → List (DrainedWrite E V) → Option Nat
  | backend, [] => backend
  | backend, w :: ws =>
    if cfg.registered w.1.1 then
      match cfg.backend w.1.1, backend with
      | none, _ => none
      | some b, none => resolveBatchBackend cfg (some b) ws
      | some b, some a => if b = a then resolveBatchBackend cfg (some a) ws else none
    else none

namespace WriteBehind

def persist (s : WriteBehind E V) (w : DrainedWrite E V) : WriteBehind E V :=
  { s with l3 := Function.update s.l3 w.1 (some w.2.data) }

def commit (s : WriteBehind E V) (ws : List (DrainedWrite E V)) : WriteBehind E V :=
  ws.foldl persist s

def ack (s : WriteBehind E V) (w : DrainedWrite E V) : WriteBehind E V :=
  { s with wb := s.wb.ack w.1 }

def reEnqueue (cfg : FlushConfig E V) (s : WriteBehind E V) (w : DrainedWrite E V) :
    WriteBehind E V :=
  { s with wb := (s.wb.reEnqueue cfg.orderOf w.1 w.2.data (w.2.retries + 1)).1 }

end WriteBehind

def FlushPc.partition (cfg : FlushConfig E V) (sorted : List (DrainedWrite E V)) : FlushPc E V :=
  let fresh := sorted.filter fun w => w.2.retries = 0
  let failed := sorted.filter fun w => w.2.retries ≠ 0
  if fresh.isEmpty then .entity failed
  else
    match resolveBatchBackend cfg none fresh with
    | some _ => .batch fresh failed fresh []
    | none => .entity (fresh ++ failed)

def flushStep (cfg : FlushConfig E V) (s : WriteBehind E V) :
    FlushPc E V → PersistAnswer → WriteBehind E V × FlushPc E V
  | .idle, _ => (s, .idle)
  | .draining, _ =>
    ({ s with wb := s.wb.drain.1 }, if s.wb.drain.2.isEmpty then .idle
      else .partition cfg (toposortPending cfg.keys s.wb.drain.2))
  | .batch fresh failed (w :: todo) took, answer =>
    match answer with
    | .took => (s, .batch fresh failed todo (took ++ [w]))
    | .declined => (s, .batch fresh failed todo took)
    -- the transaction is rolled back and its writes go one by one
    | _ => (s, .entity (fresh ++ failed))
  | .batch fresh failed [] took, answer =>
    match answer with
    | .took | .declined => (s.commit took, .batchAck fresh failed)
    | _ => (s, .entity (fresh ++ failed))
  | .batchAck (w :: todo) failed, _ => (s.ack w, .batchAck todo failed)
  | .batchAck [] failed, _ => (s, .entity failed)
  | .entity (w :: todo), answer =>
    if cfg.registered w.1.1 then
      match answer with
      | .took => (s.persist w, .acking w todo)
      | .declined => (s, .acking w todo)
      | .unreadable => (s.persist w, .acking w todo)
      | .failed fk =>
        if retryLimit fk ≤ w.2.retries + 1 then (s, .acking w todo)
        else (s, .reEnqueuing w todo)
    else (s, .acking w todo)
  | .entity [], _ => (s, .announcing)
  | .acking w todo, _ => (s.ack w, .entity todo)
  | .reEnqueuing w todo, _ => (s.reEnqueue cfg w, .entity todo)
  | .announcing, _ => (s, .idle)

namespace FlushPc

def toPersist : FlushPc E V → List (DrainedWrite E V)
  | .batch fresh failed _ _ => fresh ++ failed
  | .batchAck _ failed => failed
  | .entity todo => todo
  | .acking _ todo => todo
  | .reEnqueuing _ todo => todo
  | _ => []

def toSettle : FlushPc E V → List (DrainedWrite E V)
  | .batch fresh failed _ _ => fresh ++ failed
  | .batchAck todo failed => todo ++ failed
  | .entity todo => todo
  | .acking w todo => w :: todo
  | .reEnqueuing w todo => w :: todo
  | _ => []

def writes (cfg : FlushConfig E V) : FlushPc E V → PersistAnswer → List (DrainedWrite E V)
  | .batch _ _ [] took, .took => took
  | .batch _ _ [] took, .declined => took
  | .entity (w :: _), .took => if cfg.registered w.1.1 then [w] else []
  | .entity (w :: _), .unreadable => if cfg.registered w.1.1 then [w] else []
  | _, _ => []

def Wf : FlushPc E V → Prop
  | .batch fresh _ todo took => (∀ w ∈ todo, w ∈ fresh) ∧ ∀ w ∈ took, w ∈ fresh
  | _ => True

end FlushPc

variable {cfg : FlushConfig E V} {s : WriteBehind E V} {pc : FlushPc E V} {ans : PersistAnswer}
  {w : DrainedWrite E V}

omit [DecidableEq E] in
lemma mem_toPersist_of_writes (hw : pc.Wf) (h : w ∈ pc.writes cfg ans) : w ∈ pc.toPersist := by
  unfold FlushPc.writes at h
  split at h
  · exact mem_append_left _ (hw.2 w h)
  · exact mem_append_left _ (hw.2 w h)
  · split_ifs at h
    · rw [mem_singleton.1 h]
      exact mem_cons_self
    · cases h
  · split_ifs at h
    · rw [mem_singleton.1 h]
      exact mem_cons_self
    · cases h
  · cases h

omit [DecidableEq E] in
lemma mem_of_mem_toPersist_partition {sorted : List (DrainedWrite E V)}
    (h : w ∈ (FlushPc.partition cfg sorted).toPersist) : w ∈ sorted := by
  have hu : ∀ w ∈ sorted.filter (fun w => w.2.retries = 0) ++
      sorted.filter fun w => w.2.retries ≠ 0, w ∈ sorted := by
    intro w hw
    rcases mem_append.1 hw with hw | hw
    all_goals exact (mem_filter.1 hw).1
  unfold FlushPc.partition at h
  simp only at h
  split_ifs at h
  · exact (mem_filter.1 h).1
  split at h
  all_goals exact hu w h

omit [DecidableEq E] in
lemma wf_partition (sorted : List (DrainedWrite E V)) : (FlushPc.partition cfg sorted).Wf := by
  unfold FlushPc.partition
  simp only
  split_ifs
  · trivial
  split
  · exact ⟨fun w hw => hw, nofun⟩
  · trivial

lemma wf_flushStep (hw : pc.Wf) : (flushStep cfg s pc ans).2.Wf := by
  cases pc with
  | draining =>
    simp only [flushStep]
    split_ifs
    · trivial
    · exact wf_partition _
  | batch fresh failed todo took =>
    cases todo with
    | nil => cases ans <;> trivial
    | cons w todo =>
      have ht : ∀ w ∈ todo, w ∈ fresh := fun w' hw' => hw.1 w' (mem_cons_of_mem _ hw')
      cases ans with
      | took =>
        refine ⟨ht, ?_⟩
        intro w' hw'
        rcases mem_append.1 hw' with hw' | hw'
        · exact hw.2 w' hw'
        rw [mem_singleton.1 hw']
        exact hw.1 w mem_cons_self
      | declined => exact ⟨ht, hw.2⟩
      | unreadable | failed fk => trivial
  | batchAck todo => cases todo <;> trivial
  | entity todo =>
    cases todo with
    | nil => trivial
    | cons =>
      simp only [flushStep]
      split_ifs
      · cases ans with
        | failed =>
          simp only
          split_ifs
          all_goals trivial
        | _ => trivial
      · trivial
  | _ => trivial

lemma mem_toPersist_of_flushStep (h : w ∈ (flushStep cfg s pc ans).2.toPersist) :
    w ∈ pc.toPersist ∨ w ∈ s.wb.unclaimed := by
  cases pc with
  | idle | acking w' todo | reEnqueuing w' todo | announcing => exact .inl h
  | draining =>
    simp only [flushStep] at h
    split_ifs at h
    · cases h
    · exact .inr (mem_of_mem_toposortPending (mem_of_mem_toPersist_partition h))
  | batch _ failed todo took =>
    left
    cases todo with
    | nil =>
      cases ans with
      | took | declined => exact mem_append_right _ h
      | unreadable | failed fk => exact h
    | cons => cases ans <;> exact h
  | batchAck todo => cases todo <;> exact .inl h
  | entity todo =>
    left
    cases todo with
    | nil => exact h
    | cons =>
      simp only [flushStep] at h
      split_ifs at h
      · cases ans with
        | failed =>
          simp only at h
          split_ifs at h
          all_goals exact mem_cons_of_mem _ h
        | _ => exact mem_cons_of_mem _ h
      · exact mem_cons_of_mem _ h

lemma commit_wb (ws : List (DrainedWrite E V)) : (s.commit ws).wb = s.wb := by
  induction ws generalizing s with
  | nil => rfl
  | cons _ _ ih => exact ih

lemma commit_l3_of_notMem {ws : List (DrainedWrite E V)} {k : String × E}
    (hk : k ∉ ws.map Prod.fst) : (s.commit ws).l3 k = s.l3 k := by
  induction ws generalizing s with
  | nil => rfl
  | cons w ws ih =>
    rw [map_cons, mem_cons, not_or] at hk
    show ((s.persist w).commit ws).l3 k = s.l3 k
    rw [ih hk.2]
    exact Function.update_of_ne hk.1 _ _

lemma commit_l3_of_mem {ws : List (DrainedWrite E V)} (ho : (ws.map Prod.fst).Nodup)
    {w : DrainedWrite E V} (hw : w ∈ ws) : (s.commit ws).l3 w.1 = some w.2.data := by
  induction ws generalizing s with
  | nil => cases hw
  | cons w' ws ih =>
    rw [map_cons, nodup_cons] at ho
    show ((s.persist w').commit ws).l3 w.1 = some w.2.data
    rcases mem_cons.1 hw with rfl | hw
    · rw [commit_l3_of_notMem ho.1]
      exact Function.update_self _ _ _
    · exact ih ho.2 hw

lemma flushStep_l3 : (flushStep cfg s pc ans).1.l3 = (s.commit (pc.writes cfg ans)).l3 := by
  cases pc with
  | batch _ _ todo => cases todo <;> cases ans <;> rfl
  | batchAck todo => cases todo <;> rfl
  | entity todo =>
    cases todo with
    | nil => cases ans <;> rfl
    | cons w =>
      by_cases hr : cfg.registered w.1.1 = true
      · cases ans with
        | failed =>
          simp only [flushStep, hr, if_true, FlushPc.writes]
          split_ifs
          all_goals rfl
        | _ => simp [flushStep, hr, FlushPc.writes, WriteBehind.commit]
      · cases ans <;> simp [flushStep, hr, FlushPc.writes, WriteBehind.commit]
  | _ => cases ans <;> rfl

lemma flushStep_wb (cfg : FlushConfig E V) (s : WriteBehind E V) (pc : FlushPc E V)
    (ans : PersistAnswer) : (flushStep cfg s pc ans).1.wb = s.wb ∨
    (flushStep cfg s pc ans).1.wb = s.wb.drain.1 ∨
    (∃ k, (flushStep cfg s pc ans).1.wb = s.wb.ack k) ∨
    ∃ k data retries,
      (flushStep cfg s pc ans).1.wb = (s.wb.reEnqueue cfg.orderOf k data retries).1 := by
  cases pc with
  | draining => exact .inr (.inl rfl)
  | batch _ _ todo took =>
    left
    cases todo with
    | nil => cases ans <;> first | rfl | exact commit_wb took
    | cons => cases ans <;> rfl
  | batchAck todo =>
    cases todo with
    | nil => exact .inl rfl
    | cons w => exact .inr (.inr (.inl ⟨w.1, rfl⟩))
  | entity todo =>
    left
    cases todo with
    | nil => rfl
    | cons =>
      simp only [flushStep]
      split_ifs
      · cases ans with
        | failed =>
          simp only
          split_ifs
          all_goals rfl
        | _ => rfl
      · rfl
  | acking w => exact .inr (.inr (.inl ⟨w.1, rfl⟩))
  | reEnqueuing w => exact .inr (.inr (.inr ⟨w.1, w.2.data, w.2.retries + 1, rfl⟩))
  | _ => exact .inl rfl

lemma claimsHeld_flushStep (h : s.wb.ClaimsHeld) : (flushStep cfg s pc ans).1.wb.ClaimsHeld := by
  rcases flushStep_wb cfg s pc ans with hw | hw | ⟨k, hw⟩ | ⟨k, data, retries, hw⟩
  all_goals rw [hw]
  · exact h
  · exact h.drain
  · exact h.ack k
  · exact h.reEnqueue k data retries

lemma held_flushStep {k : String × E} (hc : s.wb.ClaimsHeld) (h : s.wb.held k = none) :
    (flushStep cfg s pc ans).1.wb.held k = none := by
  rcases flushStep_wb cfg s pc ans with hw | hw | ⟨k', hw⟩ | ⟨k', data, retries, hw⟩
  all_goals rw [hw]
  · exact h
  · exact h
  · exact WriteBuffer.held_ack_of_none h
  · exact WriteBuffer.held_reEnqueue_of_none hc h retries

end ThreeTears
