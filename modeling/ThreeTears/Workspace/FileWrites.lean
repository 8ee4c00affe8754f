import ThreeTears.Lib.Families
import ThreeTears.Lib.StepSystem

/-!
# Guarded writes of a workspace file

A write selects the head row, then the journal's highest version, then inserts its journal row and
commits that with the head row. Each statement sees what was committed when it began.
-/

namespace ThreeTears

open Function List StepSystem

variable {σ ι : Type*}

structure FileWrite (σ : Type*) where
  expected : Option σ
  sha : σ
  deriving DecidableEq

/-- How far the transaction of a write has come. -/
inductive FileTx (σ : Type*)
  | idle
  | checked (w : FileWrite σ)
  | numbered (w : FileWrite σ) (version : Nat)
  | inserted (w : FileWrite σ) (version : Nat)

/-- What is committed of one path, the newest version first, the journal rows that are not committed
yet, and the transactions. -/
structure FilePath (σ ι : Type*) where
  journal : List (Nat × FileWrite σ)
  head : Option σ
  inserts : List (ι × Nat)
  txs : ι → FileTx σ

inductive FileAct (σ ι : Type*)
  | selectHead (i : ι) (w : FileWrite σ)
  | nextJournalVersion (i : ι)
  | insertVersion (i : ι)
  | commit (i : ι)
  /-- a validator or a statement raises, or the connection is lost -/
  | rollback (i : ι)

namespace FilePath

variable {s s' : FilePath σ ι} {a : FileAct σ ι} {i : ι} {w : FileWrite σ} {v : Nat}

def maxVersion (journal : List (Nat × FileWrite σ)) : Nat := (journal.map Prod.fst).foldr max 0

lemma le_maxVersion {journal : List (Nat × FileWrite σ)} {x : Nat × FileWrite σ}
    (h : x ∈ journal) : x.1 ≤ maxVersion journal := by
  induction journal with
  | nil => cases h
  | cons y journal ih =>
    obtain rfl | h := mem_cons.1 h
    · exact le_max_left _ _
    · exact (ih h).trans (le_max_right _ _)

variable [DecidableEq ι]

def goTo (s : FilePath σ ι) (i : ι) (tx : FileTx σ) : FilePath σ ι :=
  { s with txs := update s.txs i tx }

def abort (s : FilePath σ ι) (i : ι) : FilePath σ ι :=
  { s.goTo i .idle with inserts := s.inserts.filter (·.1 ≠ i) }

variable [DecidableEq σ]

def step (s : FilePath σ ι) : FileAct σ ι → Option (FilePath σ ι)
  | .selectHead i w =>
    match s.txs i with
    -- `Sha256Mismatch`
    | .idle => some (if w.expected.isNone ∨ s.head = w.expected then s.goTo i (.checked w) else s)
    | _ => none
  | .nextJournalVersion i =>
    match s.txs i with
    | .checked w => some (s.goTo i (.numbered w (maxVersion s.journal + 1)))
    | _ => none
  | .insertVersion i =>
    match s.txs i with
    | .numbered w v =>
      if v ∈ s.journal.map Prod.fst then some (s.abort i)
      -- the insert waits for the transaction that has a row of this version
      else if v ∈ s.inserts.map Prod.snd then none
      else some { s.goTo i (.inserted w v) with inserts := (i, v) :: s.inserts }
    | _ => none
  | .commit i =>
    match s.txs i with
    | .inserted w v => some { s.abort i with journal := (v, w) :: s.journal, head := some w.sha }
    | _ => none
  | .rollback i => some (s.abort i)

def system : StepSystem (FilePath σ ι) (FileAct σ ι) := ⟨step⟩

def start : FilePath σ ι := ⟨[], none, [], fun _ => .idle⟩

def Checked (w : FileWrite σ) (head : Option σ) : Prop := w.expected.isNone ∨ head = w.expected

/-- As a guarded write numbers itself, the head row is still the one it was checked against. -/
def HeadStands (s : FilePath σ ι) : FileAct σ ι → Prop
  | .nextJournalVersion i =>
    match s.txs i with
    | .checked w => Checked w s.head
    | _ => True
  | _ => True

instance : Decidable (s.HeadStands a) := by
  unfold HeadStands Checked
  split
  · split <;> infer_instance
  · infer_instance

def Guarded : List (Nat × FileWrite σ) → Prop
  | [] => True
  | x :: older => Checked x.2 (older.head?.map (·.2.sha)) ∧ Guarded older

/-- A version that is not taken is the next one, of a write that was checked against the head row.
-/
def Fit (s : FilePath σ ι) (i : ι) : FileTx σ → Prop
  | .numbered w v =>
    v ∈ s.journal.map Prod.fst ∨ v = maxVersion s.journal + 1 ∧ Checked w s.head
  | .inserted w v => v = maxVersion s.journal + 1 ∧ Checked w s.head ∧ s.inserts = [(i, v)]
  | _ => True

structure Ordered (s : FilePath σ ι) : Prop where
  sorted : s.journal.Pairwise (·.1 > ·.1)
  head : s.head = s.journal.head?.map (·.2.sha)
  guarded : Guarded s.journal
  inserts : ∀ x ∈ s.inserts, x.2 = maxVersion s.journal + 1
  fit : ∀ i, s.Fit i (s.txs i)

omit [DecidableEq σ] in
lemma Ordered.abort (h : s.Ordered) : (s.abort i).Ordered :=
  { h with
    inserts := fun x hx => h.inserts x (mem_of_mem_filter hx)
    fit := fun j => by
      have hj := h.fit j
      simp only [FilePath.abort, goTo, update_apply]
      split_ifs with hi
      · trivial
      cases htx : s.txs j with rw [htx] at hj
      | inserted w v => exact ⟨hj.1, hj.2.1, by simp [hj.2.2, hi]⟩
      | _ => exact hj }

omit [DecidableEq σ] in
lemma Ordered.goTo (h : s.Ordered) {tx : FileTx σ} (htx : s.Fit i tx) : (s.goTo i tx).Ordered :=
  { h with
    fit := fun j => by
      simp only [FilePath.goTo, update_apply]
      split_ifs with hi
      · exact hi ▸ htx
      · exact h.fit j }

omit [DecidableEq σ] in
lemma Ordered.insert (h : s.Ordered) (htx : s.txs i = .numbered w v)
    (hnew : v ∉ s.journal.map Prod.fst) (hfree : v ∉ s.inserts.map Prod.snd) :
    Ordered { s.goTo i (.inserted w v) with inserts := (i, v) :: s.inserts } := by
  obtain ⟨rfl, hc⟩ := (htx ▸ h.fit i : s.Fit i (.numbered w v)).resolve_left hnew
  have hnone : s.inserts = [] := eq_nil_iff_forall_not_mem.2 fun x hx =>
    hfree (mem_map.2 ⟨x, hx, h.inserts x hx⟩)
  refine { h with inserts := forall_mem_cons.2 ⟨rfl, h.inserts⟩, fit := fun j => ?_ }
  have hj := h.fit j
  simp only [FilePath.goTo, update_apply]
  split_ifs with hi
  · exact hi ▸ ⟨rfl, hc, by rw [hnone]⟩
  cases htx : s.txs j with rw [htx] at hj
  | inserted => simp [Fit, hnone] at hj
  | _ => exact hj

omit [DecidableEq σ] in
lemma Ordered.commit (h : s.Ordered) (htx : s.txs i = .inserted w v) :
    Ordered { s.abort i with journal := (v, w) :: s.journal, head := some w.sha } := by
  obtain ⟨rfl, hc, hi⟩ := (htx ▸ h.fit i : s.Fit i (.inserted w v))
  refine ⟨pairwise_cons.2 ⟨fun x hx => Nat.lt_succ_of_le (le_maxVersion hx), h.sorted⟩, rfl,
    ⟨h.head ▸ hc, h.guarded⟩, by simp [FilePath.abort, hi], fun j => ?_⟩
  have hj := h.fit j
  obtain rfl | hji := eq_or_ne j i
  · simp [FilePath.abort, FilePath.goTo, Fit]
  simp only [FilePath.abort, FilePath.goTo, update_of_ne hji]
  cases htx : s.txs j with rw [htx] at hj
  | numbered w v =>
    exact .inl (hj.elim (mem_cons_of_mem _) fun hnext => hnext.1 ▸ mem_cons_self)
  | inserted => simp [Fit, hi, hji.symm] at hj
  | _ => trivial

lemma Ordered.step (h : s.Ordered) (hsa : s.HeadStands a) (ht : s.step a = some s') :
    s'.Ordered := by
  cases a with (simp only [FilePath.step] at ht; try split at ht <;> try cases ht)
  | selectHead i w =>
    split_ifs
    · exact h.goTo trivial
    · exact h
  | nextJournalVersion i =>
    next w htx =>
      simp only [HeadStands, htx] at hsa
      exact h.goTo (.inr ⟨rfl, hsa⟩)
  | insertVersion i =>
    next w v htx =>
      split_ifs at ht with hnew hfree <;> cases ht
      · exact h.abort
      · exact h.insert htx hnew hfree
  | commit i => next htx => exact h.commit htx
  | rollback i =>
    cases ht
    exact h.abort

/-- The committed writes have rising versions, the head row is the last of them, and each guarded
one replaced what it expected. Only a commit changes what is committed. -/
theorem committed_guarded {as : List (FileAct σ ι)}
    (hrun : (system.guard HeadStands).run start as = some s) :
    s.journal.Pairwise (·.1 > ·.1) ∧ s.head = s.journal.head?.map (·.2.sha) ∧
      Guarded s.journal ∧ ∀ a s', s.step a = some s' → (∀ i, a ≠ .commit i) →
        s'.journal = s.journal ∧ s'.head = s.head := by
  have h : s.Ordered := system.run_guard_invariant (fun _ _ _ h ho ht => h.step ho ht)
    ⟨.nil, rfl, by simp [start, Guarded], by simp [start], by simp [start, Fit]⟩ hrun
  refine ⟨h.sorted, h.head, h.guarded, fun a s' ht hc => ?_⟩
  cases a with simp only [FilePath.step] at ht
  | commit i => exact absurd rfl (hc i)
  | rollback i =>
    cases ht
    exact ⟨rfl, rfl⟩
  | _ => split at ht <;> (try split_ifs at ht) <;> cases ht <;> exact ⟨rfl, rfl⟩

/-- The first write is checked, the second one too, and both are committed, the second one first. -/
def overtaken (first second : FileWrite Nat) : List (FileAct Nat Bool) :=
  [.selectHead true first, .selectHead false second, .nextJournalVersion false,
    .insertVersion false, .commit false, .nextJournalVersion true, .insertVersion true,
    .commit true]

/-- One writer alone, from its check to its commit. -/
def writes (i : Bool) (w : FileWrite Nat) : List (FileAct Nat Bool) :=
  [.selectHead i w, .nextJournalVersion i, .insertVersion i, .commit i]

/-- Two writes that expect 1 are numbered alike; the second one to insert is refused, and its writer
begins again from what it finds. -/
def refusedOnce : List (FileAct Nat Bool) :=
  writes true ⟨none, 1⟩ ++
    [.selectHead true ⟨some 1, 2⟩, .selectHead false ⟨some 1, 3⟩, .nextJournalVersion false,
      .nextJournalVersion true, .insertVersion true, .commit true, .insertVersion false,
      .selectHead false ⟨some 1, 3⟩] ++ writes false ⟨some 2, 3⟩

theorem committed_guarded_refusedOnce :
    ∃ s, (system.guard HeadStands).run start refusedOnce = some s ∧
      s.journal = [(3, ⟨some 2, 3⟩), (2, ⟨some 1, 2⟩), (1, ⟨none, 1⟩)] ∧ Guarded s.journal :=
  exists_run_and _ (by decide) fun _ hrun _ => (committed_guarded hrun).2.2.1

/-- A write that expects 1 is committed over 2. -/
theorem committed_over_other :
    ∃ s, system.run start (writes true ⟨none, 1⟩ ++ overtaken ⟨some 1, 3⟩ ⟨none, 2⟩) = some s ∧
      s.journal = [(3, ⟨some 1, 3⟩), (2, ⟨none, 2⟩), (1, ⟨none, 1⟩)] :=
  exists_run_of_any _ (by decide)

end FilePath

end ThreeTears
