import ThreeTears.Collections.Generation
import ThreeTears.Lib.StepSystem

/-!
# The op-logs of a server

A log's stream takes the one subject it was made with, and is found by a name made of that subject.
`open` binds whatever stream has the name.
-/

namespace ThreeTears

open Function StepSystem

variable {κ : Type*}

structure OpLogKey where
  repo : Text
  branch : Text
  deriving DecidableEq

def sanitizeSubjectSegment (segment : Text) : Text :=
  segment.map fun c => if c = '.' then '-' else c

namespace OpLogKey

/-- `Subjects.oplog` -/
def subject (ns : Text) (k : OpLogKey) : Text :=
  ns ++ ['.', 'o', 'p', 'l', 'o', 'g', '.'] ++ sanitizeSubjectSegment k.repo ++
    '.' :: sanitizeSubjectSegment k.branch

def stream (ns : Text) (k : OpLogKey) : Text := sanitizeSubjectSegment (k.subject ns)

end OpLogKey

/-- The streams by their names, each with its subject, and what appends added to each log. -/
structure OpLogServer (κ : Type*) where
  streams : Text → Option (Text × List κ)
  accepted : OpLogKey → List κ

inductive OpLogCall (κ : Type*)
  | bind (k : OpLogKey)
  /-- the operation's id is in the stream's duplicate window or not -/
  | append (k : OpLogKey) (op : κ) (expected : Nat) (duplicate : Bool)

def OpLogCall.key : OpLogCall κ → OpLogKey
  | bind k | append k .. => k

namespace OpLogServer

variable {ns : Text} {s s' : OpLogServer κ} {j k : OpLogKey} {K : Set OpLogKey}

def owned (ns : Text) (s : OpLogServer κ) (k : OpLogKey) : Option (List κ) :=
  ((s.streams (k.stream ns)).filter (·.1 = k.subject ns)).map Prod.snd

def replay (ns : Text) (s : OpLogServer κ) (k : OpLogKey) (fromSeq : Nat) : Option (List κ) :=
  (s.owned ns k).map (·.drop (fromSeq - 1))

def refuses (ns : Text) (s : OpLogServer κ) (k : OpLogKey) (expected : Nat) : Bool :=
  (s.owned ns k).any (·.length ≠ expected)

def put (ns : Text) (s : OpLogServer κ) (k : OpLogKey) (entries log : List κ) : OpLogServer κ where
  streams := update s.streams (k.stream ns) (some (k.subject ns, entries))
  accepted := update s.accepted k log

def step (ns : Text) (s : OpLogServer κ) : OpLogCall κ → Option (OpLogServer κ)
  | .bind k =>
    if k.repo = [] ∨ k.branch = [] then none
    else if (s.streams (k.stream ns)).isSome then some s
    else some (s.put ns k [] (s.accepted k))
  | .append k op expected duplicate =>
    match s.owned ns k with
    | some entries =>
      if entries.length = expected ∧ !duplicate then
        some (s.put ns k (entries ++ [op]) (s.accepted k ++ [op]))
      else some s
    | none => some s

def system (ns : Text) : StepSystem (OpLogServer κ) (OpLogCall κ) := ⟨step ns⟩

def start : OpLogServer κ := ⟨fun _ => none, fun _ => []⟩

/-- The stream of a log holds what was appended to that log. -/
def Apart (ns : Text) (K : Set OpLogKey) (s : OpLogServer κ) : Prop :=
  ∀ k ∈ K, (s.owned ns k).getD [] = s.accepted k

lemma Apart.put (h : s.Apart ns K) (hi : ∀ k ∈ K, k.subject ns = j.subject ns → k = j)
    (hna : ∀ x ∈ s.streams (j.stream ns), x.1 = j.subject ns) (ops : List κ) :
    (s.put ns j ops ops).Apart ns K := by
  intro k hk
  obtain rfl | hne := eq_or_ne k j
  · simp [owned, OpLogServer.put, Option.filter]
  have hu : j.subject ns ≠ k.subject ns := fun he => hne (hi k hk he.symm)
  have ho : (s.put ns j ops ops).owned ns k = s.owned ns k := by
    unfold owned OpLogServer.put
    obtain he | ht := eq_or_ne (k.stream ns) (j.stream ns)
    · -- a stream of the name has the other log's subject
      cases hold : s.streams (j.stream ns) with
      | none => simp [he, hold, hu, Option.filter]
      | some x => simp [he, hold, hu, hna x hold, Option.filter]
    · simp only [update_of_ne ht]
  rw [ho, h k hk]
  exact (update_of_ne hne _ _).symm

lemma Apart.step {a : OpLogCall κ} (h : s.Apart ns K) (ha : a.key ∈ K)
    (hi : ∀ k ∈ K, k.subject ns = a.key.subject ns → k = a.key)
    (ht : s.step ns a = some s') : s'.Apart ns K := by
  have hl := h a.key ha
  cases a with simp only [OpLogServer.step, OpLogCall.key] at ht hl
  | bind k =>
    split_ifs at ht with _ ho <;> cases ht
    · exact h
    have hnone := Option.not_isSome_iff_eq_none.1 ho
    rw [← hl, owned, hnone]
    exact h.put hi (by simp [OpLogCall.key, hnone]) []
  | append k op exp dup =>
    split at ht <;> (try split_ifs at ht) <;> cases ht
    · next entries he _ =>
      rw [← hl, he]
      obtain ⟨x, hx, -⟩ := Option.map_eq_some_iff.1 he
      obtain ⟨hx, hu⟩ := Option.filter_eq_some_iff.1 hx
      exact h.put hi (by simpa [OpLogCall.key, hx] using hu) _
    all_goals exact h

/-- Logs with subjects of their own: a replay yields what was appended to its log, in that order,
and an append is refused only if its sequence is not the number of those operations. -/
theorem logs_apart {as : List (OpLogCall κ)}
    (hinj : ∀ j ∈ K, ∀ k ∈ K, j.subject ns = k.subject ns → j = k) (has : ∀ a ∈ as, a.key ∈ K)
    (hrun : (system ns).run start as = some s) (hk : k ∈ K) :
    (∀ fromSeq, ∀ ops ∈ s.replay ns k fromSeq, ops = (s.accepted k).drop (fromSeq - 1)) ∧
      ∀ expected, s.refuses ns k expected → expected ≠ (s.accepted k).length := by
  have h : s.Apart ns K := run_invariant_mem _
    (fun s a ha s' h ht => h.step (has a ha) (fun k hk => hinj k hk _ (has a ha)) ht)
    (fun k _ => rfl) hrun
  rw [← h k hk]
  unfold replay refuses
  cases s.owned ns k with
  | none => simp
  | some entries =>
    simp only [Option.map_some, Option.mem_some_iff, Option.getD_some, Option.any_some,
      decide_eq_true_eq]
    exact ⟨fun _ _ he => he.symm, fun _ => Ne.symm⟩

def twoBranches (first second : OpLogKey) : List (OpLogCall Nat) :=
  [.bind first, .bind second, .append first 7 0 false]

theorem logs_apart_twoBranches :
    ∃ s, (system ['n']).run start (twoBranches ⟨['a'], ['b']⟩ ⟨['a'], ['c']⟩) = some s ∧
      s.accepted ⟨['a'], ['b']⟩ = [7] ∧
      ∀ ops ∈ s.replay ['n'] ⟨['a'], ['b']⟩ 1, ops = (s.accepted ⟨['a'], ['b']⟩).drop 0 := by
  refine exists_run_and _ (by decide) fun s hr _ => ?_
  have hkeys := (logs_apart (K := {⟨['a'], ['b']⟩, ⟨['a'], ['c']⟩})
    (by simp [OpLogKey.subject, sanitizeSubjectSegment]) (by simp [twoBranches, OpLogCall.key])
    hr (.inl rfl)).1 1
  exact hkeys

/-- A dot and a dash in a repository's name make one subject. -/
theorem logs_mixed : ∃ s, (system ['n']).run start
        (twoBranches ⟨['a', '.', 'b'], ['c']⟩ ⟨['a', '-', 'b'], ['c']⟩) = some s ∧
      s.accepted ⟨['a', '-', 'b'], ['c']⟩ = [] ∧
      s.replay ['n'] ⟨['a', '-', 'b'], ['c']⟩ 1 = some [7] ∧
      s.refuses ['n'] ⟨['a', '-', 'b'], ['c']⟩ 0 :=
  exists_run_of_any _ (by decide)

end OpLogServer

end ThreeTears
