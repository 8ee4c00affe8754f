import ThreeTears.Lib.Families
import ThreeTears.Lib.StepSystem

/-!
# The appends to an op-log

An append names the sequence it follows. JetStream compares that first, and only then looks for the
operation's id among those it remembers; `append` looks for it in the log when the sequence is
wrong.
-/

namespace ThreeTears

open Function List StepSystem

variable {κ ι : Type*} [DecidableEq κ] [DecidableEq ι]

/-- The operations of a stream by their ids; the sequences count from one. -/
structure OpStream (κ : Type*) where
  entries : List κ
  /-- the ids in the duplicate window, with the sequences of their entries -/
  remembered : κ → Option Nat

inductive PubAnswer
  | ack (seq : Nat) (duplicate : Bool)
  | wrongLastSequence
  deriving DecidableEq

inductive AppendCall (κ : Type*)
  | idle
  | sent (opId : κ) (expected : Nat)
  | answered (opId : κ) (answer : PubAnswer)
  | scanning (opId : κ)

structure OpLogRun (κ ι : Type*) where
  stream : OpStream κ
  calls : ι → AppendCall κ
  /-- the ids of the appends that returned, with the sequences they returned -/
  returned : List (κ × Nat)

inductive OpLogAct (κ ι : Type*)
  | append (i : ι) (opId : κ) (expected : Nat)
  | serve (i : ι)
  /-- the publish or its answer is lost, or the call is given up -/
  | lose (i : ι)
  | hear (i : ι)
  | scan (i : ι)
  /-- the id's time in the duplicate window is over -/
  | forget (opId : κ)

namespace OpStream

def publish (st : OpStream κ) (opId : κ) (expected : Nat) : PubAnswer × OpStream κ :=
  if expected ≠ st.entries.length then (.wrongLastSequence, st)
  else
    match st.remembered opId with
    | some seq => (.ack seq true, st)
    | none =>
      (.ack (st.entries.length + 1) false,
        ⟨st.entries ++ [opId], update st.remembered opId (some (st.entries.length + 1))⟩)

def findSeqForOpId (st : OpStream κ) (opId : κ) : Option Nat :=
  (st.entries.findIdx? (· = opId)).map (· + 1)

def At (entries : List κ) (opId : κ) (seq : Nat) : Prop :=
  0 < seq ∧ entries[seq - 1]? = some opId

omit [DecidableEq κ] in
lemma At.append {entries : List κ} {opId : κ} {seq : Nat} (h : At entries opId seq)
    (more : List κ) : At (entries ++ more) opId seq := by
  refine ⟨h.1, ?_⟩
  rw [getElem?_append_left (List.getElem?_eq_some_iff.1 h.2).1, h.2]

lemma at_of_findSeqForOpId {st : OpStream κ} {opId : κ} {seq : Nat}
    (h : st.findSeqForOpId opId = some seq) : At st.entries opId seq := by
  obtain ⟨n, hn, rfl⟩ := Option.map_eq_some_iff.1 h
  obtain ⟨hlt, hi, -⟩ := findIdx?_eq_some_iff_getElem.1 hn
  exact ⟨n.succ_pos, List.getElem?_eq_some_iff.2 ⟨hlt, of_decide_eq_true hi⟩⟩

end OpStream

namespace OpLogRun

open OpStream

variable {s s' : OpLogRun κ ι} {a : OpLogAct κ ι} {i : ι} {opId : κ} {seq expected : Nat}

def goTo (s : OpLogRun κ ι) (i : ι) (c : AppendCall κ) : OpLogRun κ ι :=
  { s with calls := update s.calls i c }

def returns (s : OpLogRun κ ι) (i : ι) (opId : κ) (seq : Nat) : OpLogRun κ ι :=
  { s.goTo i .idle with returned := (opId, seq) :: s.returned }

def step (s : OpLogRun κ ι) : OpLogAct κ ι → Option (OpLogRun κ ι)
  | .append i opId expected =>
    match s.calls i with
    | .idle => some (s.goTo i (.sent opId expected))
    | _ => none
  | .serve i =>
    match s.calls i with
    | .sent opId expected =>
      let (answer, stream) := s.stream.publish opId expected
      some { s.goTo i (.answered opId answer) with stream }
    | _ => none
  | .lose i => some (s.goTo i .idle)
  | .hear i =>
    match s.calls i with
    | .answered opId (.ack seq _) => some (s.returns i opId seq)
    | .answered opId .wrongLastSequence => some (s.goTo i (.scanning opId))
    | _ => none
  | .scan i =>
    match s.calls i with
    | .scanning opId =>
      match s.stream.findSeqForOpId opId with
      | some seq => some (s.returns i opId seq)
      | none => some (s.goTo i .idle)
    | _ => none
  | .forget opId =>
    some { s with stream := { s.stream with remembered := update s.stream.remembered opId none } }

def system : StepSystem (OpLogRun κ ι) (OpLogAct κ ι) := ⟨step⟩

def start : OpLogRun κ ι := ⟨⟨[], fun _ => none⟩, fun _ => .idle, []⟩

/-- No publish at the head of the log is of an operation that is logged and no longer remembered. -/
def Fenced (s : OpLogRun κ ι) : OpLogAct κ ι → Prop
  | .serve i =>
    match s.calls i with
    | .sent opId expected =>
      expected = s.stream.entries.length → opId ∈ s.stream.entries →
        (s.stream.remembered opId).isSome
    | _ => True
  | _ => True

instance : Decidable (s.Fenced a) := by
  unfold Fenced
  split
  · split <;> infer_instance
  · infer_instance

def AnswerAt (entries : List κ) : AppendCall κ → Prop
  | .answered opId (.ack seq _) => At entries opId seq
  | _ => True

/-- Every sequence that is remembered, answered or returned is that of its operation. -/
structure Once (s : OpLogRun κ ι) : Prop where
  nodup : s.stream.entries.Nodup
  remembered : ∀ opId, ∀ seq ∈ s.stream.remembered opId, At s.stream.entries opId seq
  answered : ∀ i, AnswerAt s.stream.entries (s.calls i)
  returned : ∀ x ∈ s.returned, At s.stream.entries x.1 x.2

omit [DecidableEq κ] in
lemma Once.goTo (h : s.Once) {c : AppendCall κ} (hc : AnswerAt s.stream.entries c) :
    (s.goTo i c).Once :=
  { h with answered := forall_update (I := fun _ => AnswerAt s.stream.entries) h.answered hc }

omit [DecidableEq κ] in
lemma Once.returns (h : s.Once) (ht : At s.stream.entries opId seq) : (s.returns i opId seq).Once :=
  { h.goTo (i := i) (c := .idle) trivial with returned := forall_mem_cons.2 ⟨ht, h.returned⟩ }

lemma Once.serve (h : s.Once) (hfe : expected = s.stream.entries.length →
      opId ∈ s.stream.entries → (s.stream.remembered opId).isSome) :
    Once { s.goTo i (.answered opId (s.stream.publish opId expected).1) with
      stream := (s.stream.publish opId expected).2 } := by
  unfold publish
  split_ifs with hl
  · exact h.goTo trivial
  split
  · next seq he => exact h.goTo (h.remembered opId seq he)
  next hnew =>
  have hr : opId ∉ s.stream.entries := fun hmem => by
    simpa [hnew] using hfe (not_not.1 hl) hmem
  have ht : At (s.stream.entries ++ [opId]) opId (s.stream.entries.length + 1) :=
    ⟨Nat.succ_pos _, by simp⟩
  refine ⟨h.nodup.append (nodup_singleton _) (by simpa using hr), ?_, ?_,
    fun x hx => (h.returned x hx).append _⟩
  · refine forall_update (I := fun opId known => ∀ seq ∈ known, At _ opId seq)
      (fun opId seq he => (h.remembered opId seq he).append _) ?_
    rintro _ ⟨⟩
    exact ht
  refine forall_update (I := fun _ => AnswerAt _) (fun j => ?_) ht
  have hj := h.answered j
  unfold AnswerAt at hj ⊢
  split
  · next hq =>
    rw [hq] at hj
    exact hj.append _
  · trivial

lemma Once.step (h : s.Once) (he : s.Fenced a) (ht : s.step a = some s') : s'.Once := by
  cases a with simp only [OpLogRun.step] at ht
  | append =>
    split at ht <;> cases ht
    exact h.goTo trivial
  | serve =>
    split at ht <;> cases ht
    next hcall =>
      simp only [Fenced, hcall] at he
      exact h.serve he
  | lose =>
    cases ht
    exact h.goTo trivial
  | hear i =>
    have han := h.answered i
    split at ht <;> cases ht
    next hcall =>
      rw [hcall] at han
      exact h.returns han
    next => exact h.goTo trivial
  | scan =>
    split at ht
    · split at ht <;> cases ht
      next ho => exact h.returns (at_of_findSeqForOpId ho)
      next => exact h.goTo trivial
    · cases ht
  | forget opId =>
    cases ht
    exact { h with
      remembered := forall_update (I := fun opId known => ∀ seq ∈ known, At _ opId seq)
        h.remembered (by simp) }

/-- An operation has one entry at most, and an append that returns returns its sequence. -/
theorem logged_once {as : List (OpLogAct κ ι)}
    (hrun : (system.guard Fenced).run start as = some s) :
    s.stream.entries.Nodup ∧ ∀ x ∈ s.returned, At s.stream.entries x.1 x.2 :=
  have h : s.Once := run_guard_invariant _ (fun _ _ _ h hok hstep => h.step hok hstep)
    ⟨nodup_nil, by simp [start], by simp [start, AnswerAt], by simp [start]⟩ hrun
  ⟨h.nodup, h.returned⟩

def retried (expected : Nat) : List (OpLogAct Nat Bool) :=
  [.append true 7 0, .serve true, .lose true, .forget 7, .append false 7 expected, .serve false,
    .hear false]

theorem logged_once_retried :
    ∃ s, (system.guard Fenced).run start (retried 0 ++ [.scan false]) = some s ∧
      s.returned = [(7, 1)] ∧ s.stream.entries.Nodup :=
  exists_run_and _ (by decide) fun _ hrun _ => (logged_once hrun).1

/-- A retry that names the sequence it finds is logged again. -/
theorem logged_twice : ∃ s, system.run start (retried 1) = some s ∧
    s.stream.entries = [7, 7] ∧ s.returned = [(7, 2)] :=
  exists_run_of_any _ (by decide)

end OpLogRun

end ThreeTears
