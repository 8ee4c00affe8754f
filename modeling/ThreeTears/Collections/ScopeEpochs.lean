import ThreeTears.Lib.StepSystem
import ThreeTears.Lib.KeyedTable

/-!
# Epochs per scope

`ScopeEpochs` keeps a row for each scope and one more, `whole`, for the data's version and the write
in progress. A write takes the next version, marks the scopes it changes in the transactions that
change them, and moves every marked scope to its version when it commits. Transactions go on at
once, a statement at a time. Each sees what is committed and what it wrote itself; what it writes it
locks until it ends, and a locked row makes others wait, or is refused where the statement says so.
-/

namespace ThreeTears

open Option

variable {K D ι : Type*}

structure EpochRow where
  epoch : Nat
  previous : Option Nat
  writing : Option Nat
  pending : Option Nat
  deriving DecidableEq

structure RowLock (ι : Type*) where
  owner : Option ι
  shares : List ι

namespace RowLock

def free : RowLock ι := ⟨none, []⟩

variable [DecidableEq ι]

def Shareable (l : RowLock ι) (i : ι) : Prop := ∀ j ∈ l.owner, j = i

def Available (l : RowLock ι) (i : ι) : Prop := l.Shareable i ∧ ∀ j ∈ l.shares, j = i

instance (l : RowLock ι) (i) : Decidable (l.Shareable i) :=
  inferInstanceAs (Decidable (∀ j ∈ l.owner, j = i))

instance (l : RowLock ι) (i) : Decidable (l.Available i) :=
  inferInstanceAs (Decidable (_ ∧ ∀ j ∈ l.shares, j = i))

def take (l : RowLock ι) (i : ι) : RowLock ι := { l with owner := some i }

def share (l : RowLock ι) (i : ι) : RowLock ι := { l with shares := i :: l.shares }

def release (l : RowLock ι) (i : ι) : RowLock ι where
  owner := l.owner.filter fun j => j ≠ i
  shares := l.shares.filter fun j => j ≠ i

end RowLock

/-- Where a transaction stands in a call of several statements. -/
inductive EpochPc (K : Type*)
  | ready
  | taking
  | abandoning (version : Nat)
  | marking (version : Nat) (rest : List K) (commits : Bool)
  | checking (version : Nat)
  | moving (version : Nat)
  deriving DecidableEq

/-- A transaction: the rows it has written and the change it makes to the data. For the record: the
versions it took, what it marked for which write, the writes it committed, and whether it passed a
fence and wrote data. -/
structure EpochTx (K D : Type*) [LinearOrder K] where
  own : KeyedTable K EpochRow
  edit : D → D
  pc : EpochPc K
  begun : List Nat
  marked : List (Nat × K)
  closed : List Nat
  fenced : Bool
  wrote : Bool

def EpochTx.opened [LinearOrder K] : EpochTx K D where
  own := .empty
  edit := id
  pc := .ready
  begun := []
  marked := []
  closed := []
  fenced := false
  wrote := false

/-- What is committed, the locks and the open transactions. For the record: the versions `begin` has
answered, those committed, and each mark committed, with the epoch its scope had until then. -/
structure EpochDb (K D ι : Type*) [LinearOrder K] where
  table : KeyedTable K EpochRow
  data : D
  locks : K → RowLock ι
  txs : ι → Option (EpochTx K D)
  handed : List Nat
  begun : List Nat
  touched : List (Nat × K × Nat)

inductive EpochAct (K D ι : Type*)
  | openTx (i : ι)
  | lockVersion (i : ι)
  | takeVersion (i : ι)
  | abandon (i : ι) (version : Nat)
  | touch (i : ι) (version : Nat) (scopes : List K)
  | commit (i : ι) (version : Nat) (scopes : List K)
  | mark (i : ι)
  | readBehind (i : ι)
  | moveScopes (i : ι)
  | writeData (i : ι) (edit : D → D)
  | commitTx (i : ι)
  | rollback (i : ι)

def touchBatch : Nat := 500

/-- The version row after `begin`. -/
def beginRow : Option EpochRow → EpochRow
  | none => ⟨0, none, some 1, none⟩
  | some row => { row with writing := some (max row.epoch (row.writing.getD 0) + 1) }

def pendingRow (version : Nat) : Option EpochRow → EpochRow
  | none => ⟨0, none, none, some version⟩
  | some row => { row with pending := some (max (row.pending.getD 0) version) }

/-- The version row after the fence of `commit`. -/
def closedRow (version : Nat) (row : EpochRow) : EpochRow :=
  { row with previous := some row.epoch, epoch := version, writing := none }

def movedRow (version : Nat) (row : EpochRow) : EpochRow :=
  { row with
    previous := if row.epoch = 0 then none else some row.epoch
    epoch := version
    pending := none }

variable [LinearOrder K]

-- named, so that `∈` is decided by one term in every module
local instance lawful : LawfulBEq K := inferInstance

def epochOf (t : KeyedTable K EpochRow) (k : K) : Nat := ((t.get k).map EpochRow.epoch).getD 0

def pendingOf (t : KeyedTable K EpochRow) (k : K) : Option Nat := (t.get k).bind EpochRow.pending

def writingOf (t : KeyedTable K EpochRow) (whole : K) : Option Nat :=
  (t.get whole).bind EpochRow.writing

def EpochPc.marked (version : Nat) (rest : List K) (commits : Bool) : EpochPc K :=
  if rest = [] then if commits then .checking version else .ready
  else .marking version rest commits

namespace EpochDb

variable (whole : K)

def view (s : EpochDb K D ι) (tx : EpochTx K D) : KeyedTable K EpochRow := tx.own.union s.table

def Behind (t : KeyedTable K EpochRow) (version : Nat) : Prop :=
  ∃ e ∈ t.rows, e.1 ≠ whole ∧ e.2.pending.isSome ∧ version ≤ e.2.epoch
deriving Decidable

def moved (t : KeyedTable K EpochRow) (version : Nat) : KeyedTable K EpochRow :=
  t.filterMap fun k row =>
    if k ≠ whole ∧ row.pending.isSome then some (movedRow version row) else none

def marks (t : KeyedTable K EpochRow) (version : Nat) (scopes : List K) : KeyedTable K EpochRow :=
  scopes.foldl (fun own k => own.insert k (pendingRow version (t.get k))) .empty

variable [DecidableEq ι]

def setTx (s : EpochDb K D ι) (i : ι) (tx : EpochTx K D) : EpochDb K D ι :=
  { s with txs := Function.update s.txs i (some tx) }

def ended (s : EpochDb K D ι) (i : ι) : EpochDb K D ι :=
  { s with
    txs := Function.update s.txs i none
    locks := fun k => (s.locks k).release i }

def takeLock (s : EpochDb K D ι) (i : ι) (k : K) : EpochDb K D ι :=
  { s with locks := Function.update s.locks k ((s.locks k).take i) }

def shareLock (s : EpochDb K D ι) (i : ι) (k : K) : EpochDb K D ι :=
  { s with locks := Function.update s.locks k ((s.locks k).share i) }

def written (s : EpochDb K D ι) (i : ι) (tx : EpochTx K D) (rows : KeyedTable K EpochRow)
    (pc : EpochPc K) : EpochDb K D ι :=
  { s with
    txs := Function.update s.txs i (some { tx with own := rows.union tx.own, pc := pc })
    locks := fun k => if (rows.get k).isSome then (s.locks k).take i else s.locks k }

def took (s : EpochDb K D ι) (i : ι) (tx : EpochTx K D) : EpochDb K D ι :=
  let row := beginRow ((s.view tx).get whole)
  let version := row.writing.getD 0
  { s.written i { tx with begun := version :: tx.begun } (.insert .empty whole row) .ready with
    handed := version :: s.handed }

def closes (s : EpochDb K D ι) (i : ι) (tx : EpochTx K D) (version : Nat) (scopes : List K)
    (row : EpochRow) : EpochDb K D ι :=
  s.written i { tx with closed := version :: tx.closed, fenced := true }
    (.insert .empty whole (closedRow version row)) (.marked version scopes true)

def marksNext (s : EpochDb K D ι) (i : ι) (tx : EpochTx K D) (version : Nat) (rest : List K)
    (commits : Bool) : EpochDb K D ι :=
  let batch := rest.take touchBatch
  s.written i { tx with marked := batch.map (fun k => (version, k)) ++ tx.marked }
    (marks (s.view tx) version batch) (.marked version (rest.drop touchBatch) commits)

def committed (s : EpochDb K D ι) (i : ι) (tx : EpochTx K D) : EpochDb K D ι :=
  { s.ended i with
    table := s.view tx
    data := tx.edit s.data
    begun := tx.begun ++ s.begun
    touched := tx.marked.map (fun mark => (mark.1, mark.2, epochOf s.table mark.2)) ++ s.touched }

def step (s : EpochDb K D ι) : EpochAct K D ι → Option (EpochDb K D ι)
  | .openTx i =>
    match s.txs i with
    | none => some (s.setTx i .opened)
    | some _ => none
  | .lockVersion i => (s.txs i).bind fun tx =>
    match tx.pc with
    | .ready =>
      if ((s.view tx).get whole).isNone then some (s.setTx i { tx with pc := .taking })
      else if (s.locks whole).Available i then
        some ((s.takeLock i whole).setTx i { tx with pc := .taking })
      else some (s.ended i)
    | _ => none
  | .takeVersion i => (s.txs i).bind fun tx =>
    match tx.pc with
    | .taking => if (s.locks whole).Available i then some (s.took whole i tx) else none
    | _ => none
  | .abandon i version => (s.txs i).bind fun tx =>
    match tx.pc with
    | .ready =>
      if writingOf (s.view tx) whole = some version ∧ (s.locks whole).Available i then
        some ((s.takeLock i whole).setTx i { tx with pc := .abandoning version })
      else some (s.ended i)
    | _ => none
  | .touch i version scopes => (s.txs i).bind fun tx =>
    match tx.pc with
    | .ready =>
      if whole ∈ scopes ∨ writingOf (s.view tx) whole ≠ some version then some (s.ended i)
      else if (s.locks whole).Shareable i then
        some ((s.shareLock i whole).setTx i
          { tx with pc := .marked version scopes false, fenced := true })
      else none
    | _ => none
  | .commit i version scopes => (s.txs i).bind fun tx =>
    if tx.pc = .ready ∨ tx.pc = .abandoning version ∧ scopes = [] then
      match (s.view tx).get whole with
      | some row =>
        if whole ∈ scopes ∨ row.writing ≠ some version then some (s.ended i)
        else if (s.locks whole).Available i then some (s.closes whole i tx version scopes row)
        else none
      | none => some (s.ended i)
    else none
  | .mark i => (s.txs i).bind fun tx =>
    match tx.pc with
    | .marking version rest commits =>
      if ∀ k ∈ rest.take touchBatch, (s.locks k).Available i then
        some (s.marksNext i tx version rest commits)
      else none
    | _ => none
  | .readBehind i => (s.txs i).bind fun tx =>
    match tx.pc with
    | .checking version =>
      if Behind whole (s.view tx) version then some (s.ended i)
      else some (s.setTx i { tx with pc := .moving version })
    | _ => none
  | .moveScopes i => (s.txs i).bind fun tx =>
    match tx.pc with
    | .moving version =>
      if ∀ e ∈ (moved whole (s.view tx) version).rows, (s.locks e.1).Available i then
        some (s.written i tx (moved whole (s.view tx) version) .ready)
      else none
    | _ => none
  | .writeData i edit => (s.txs i).bind fun tx =>
    match tx.pc with
    | .ready => some (s.setTx i { tx with edit := edit ∘ tx.edit, wrote := true })
    | _ => none
  | .commitTx i => (s.txs i).bind fun tx =>
    match tx.pc with
    | .ready => some (s.committed i tx)
    | _ => none
  | .rollback i => (s.txs i).map fun _ => s.ended i

def system : StepSystem (EpochDb K D ι) (EpochAct K D ι) := ⟨step whole⟩

def start (data : D) : EpochDb K D ι where
  table := .empty
  data := data
  locks _ := .free
  txs _ := none
  handed := []
  begun := []
  touched := []

/-- What a step does. A refusal ends the transaction as a rollback does. -/
inductive Moves (s : EpochDb K D ι) : EpochAct K D ι → EpochDb K D ι → Prop
  | openTx (i : ι) (htx : s.txs i = none) : Moves s (.openTx i) (s.setTx i .opened)
  | noRow (i : ι) (tx : EpochTx K D) (htx : s.txs i = some tx) (hpc : tx.pc = .ready)
      (hrow : (s.view tx).get whole = none) :
    Moves s (.lockVersion i) (s.setTx i { tx with pc := .taking })
  | locks (a : EpochAct K D ι) (i : ι) (tx : EpochTx K D) (pc : EpochPc K)
      (htx : s.txs i = some tx) (hpc : tx.pc = .ready)
      (hlock : (s.locks whole).Available i)
      (hnext : pc = .taking ∨
        ∃ version, pc = .abandoning version ∧ writingOf (s.view tx) whole = some version) :
    Moves s a ((s.takeLock i whole).setTx i { tx with pc := pc })
  | ends (a : EpochAct K D ι) (i : ι) (tx : EpochTx K D) (htx : s.txs i = some tx) :
    Moves s a (s.ended i)
  | takes (i : ι) (tx : EpochTx K D) (htx : s.txs i = some tx) (hpc : tx.pc = .taking)
      (hlock : (s.locks whole).Available i) : Moves s (.takeVersion i) (s.took whole i tx)
  | fences (i : ι) (tx : EpochTx K D) (version : Nat) (scopes : List K)
      (htx : s.txs i = some tx) (hpc : tx.pc = .ready) (hscopes : whole ∉ scopes)
      (hwriting : writingOf (s.view tx) whole = some version)
      (hlock : (s.locks whole).Shareable i) :
    Moves s (.touch i version scopes) ((s.shareLock i whole).setTx i
      { tx with pc := .marked version scopes false, fenced := true })
  | closes (i : ι) (tx : EpochTx K D) (version : Nat) (scopes : List K) (row : EpochRow)
      (htx : s.txs i = some tx) (hpc : tx.pc = .ready ∨ tx.pc = .abandoning version)
      (hscopes : whole ∉ scopes) (hrow : (s.view tx).get whole = some row)
      (hwriting : row.writing = some version) (hlock : (s.locks whole).Available i) :
    Moves s (.commit i version scopes) (s.closes whole i tx version scopes row)
  | marks (i : ι) (tx : EpochTx K D) (version : Nat) (rest : List K) (commits : Bool)
      (htx : s.txs i = some tx) (hpc : tx.pc = .marking version rest commits)
      (hlock : ∀ k ∈ rest.take touchBatch, (s.locks k).Available i) :
    Moves s (.mark i) (s.marksNext i tx version rest commits)
  | checked (i : ι) (tx : EpochTx K D) (version : Nat) (htx : s.txs i = some tx)
      (hpc : tx.pc = .checking version) :
    Moves s (.readBehind i) (s.setTx i { tx with pc := .moving version })
  | moves (i : ι) (tx : EpochTx K D) (version : Nat) (htx : s.txs i = some tx)
      (hpc : tx.pc = .moving version)
      (hlock : ∀ e ∈ (moved whole (s.view tx) version).rows, (s.locks e.1).Available i) :
    Moves s (.moveScopes i) (s.written i tx (moved whole (s.view tx) version) .ready)
  | writes (i : ι) (tx : EpochTx K D) (edit : D → D) (htx : s.txs i = some tx)
      (hpc : tx.pc = .ready) :
    Moves s (.writeData i edit) (s.setTx i { tx with edit := edit ∘ tx.edit, wrote := true })
  | commits (i : ι) (tx : EpochTx K D) (htx : s.txs i = some tx) (hpc : tx.pc = .ready) :
    Moves s (.commitTx i) (s.committed i tx)

variable {whole} {s s' : EpochDb K D ι} {a : EpochAct K D ι}

theorem moves_of_step (ht : s.step whole a = some s') : s.Moves whole a s' := by
  cases a with
  | openTx i =>
    simp only [step] at ht
    split at ht <;> cases ht
    next htx => exact .openTx i htx
  | lockVersion i =>
    obtain ⟨tx, htx, ht⟩ := bind_eq_some_iff.1 ht
    split at ht <;> try cases ht
    next hpc =>
      split_ifs at ht with hrow hlock <;> cases ht
      · exact .noRow i tx htx hpc (isNone_iff_eq_none.1 hrow)
      · exact .locks _ i tx _ htx hpc hlock (.inl rfl)
      · exact .ends _ i tx htx
  | takeVersion i =>
    obtain ⟨tx, htx, ht⟩ := bind_eq_some_iff.1 ht
    split at ht <;> try cases ht
    next hpc =>
      split_ifs at ht with hlock
      cases ht
      exact .takes i tx htx hpc hlock
  | abandon i ver =>
    obtain ⟨tx, htx, ht⟩ := bind_eq_some_iff.1 ht
    split at ht <;> try cases ht
    next hpc =>
      split_ifs at ht with hb <;> cases ht
      · exact .locks _ i tx _ htx hpc hb.2 (.inr ⟨ver, rfl, hb.1⟩)
      · exact .ends _ i tx htx
  | touch i ver sco =>
    obtain ⟨tx, htx, ht⟩ := bind_eq_some_iff.1 ht
    split at ht <;> try cases ht
    next hpc =>
      split_ifs at ht with hr hlock <;> cases ht
      · exact .ends _ i tx htx
      rw [not_or, not_not] at hr
      exact .fences i tx ver sco htx hpc hr.1 hr.2 hlock
  | commit i ver sco =>
    obtain ⟨tx, htx, ht⟩ := bind_eq_some_iff.1 ht
    by_cases hpc : tx.pc = .ready ∨ tx.pc = .abandoning ver ∧ sco = []
    · rw [if_pos hpc] at ht
      split at ht
      next row hrow =>
        split_ifs at ht with hr hlock <;> cases ht
        · exact .ends _ i tx htx
        rw [not_or, not_not] at hr
        exact .closes i tx ver sco row htx (hpc.imp_right And.left) hr.1 hrow
          hr.2 hlock
      next =>
        cases ht
        exact .ends _ i tx htx
    rw [if_neg hpc] at ht
    cases ht
  | mark i =>
    obtain ⟨tx, htx, ht⟩ := bind_eq_some_iff.1 ht
    split at ht <;> try cases ht
    next ver rest commits hpc =>
      split_ifs at ht with hlock
      cases ht
      exact .marks i tx ver rest commits htx hpc hlock
  | readBehind i =>
    obtain ⟨tx, htx, ht⟩ := bind_eq_some_iff.1 ht
    split at ht <;> try cases ht
    next ver hpc =>
      split_ifs at ht <;> cases ht
      · exact .ends _ i tx htx
      · exact .checked i tx ver htx hpc
  | moveScopes i =>
    obtain ⟨tx, htx, ht⟩ := bind_eq_some_iff.1 ht
    split at ht <;> try cases ht
    next ver hpc =>
      split_ifs at ht with hlock
      cases ht
      exact .moves i tx ver htx hpc hlock
  | writeData i edit =>
    obtain ⟨tx, htx, ht⟩ := bind_eq_some_iff.1 ht
    split at ht <;> cases ht
    next hpc => exact .writes i tx edit htx hpc
  | commitTx i =>
    obtain ⟨tx, htx, ht⟩ := bind_eq_some_iff.1 ht
    split at ht <;> cases ht
    next hpc => exact .commits i tx htx hpc
  | rollback i =>
    obtain ⟨tx, htx, rfl⟩ := map_eq_some_iff.1 ht
    exact .ends _ i tx htx

end EpochDb

end ThreeTears
