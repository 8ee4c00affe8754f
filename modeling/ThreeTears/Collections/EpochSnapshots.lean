import ThreeTears.Collections.EpochOrder

/-!
# Reading every epoch

`snapshot` reads the epochs table a page at a time, so its rows may be of different states, but the
version row is of one. Where it says that no write was in progress, the data has stayed as it was
then, or a version has been taken since.
-/

namespace ThreeTears

variable {K D ι : Type*}

structure EpochSnapshot (K : Type*) where
  version : Nat
  writing : Option Nat
  epochs : List (K × Nat)
  previous : List (K × Option Nat)
  pending : List K
  deriving DecidableEq

structure Unsettled (K : Type*) where
  version : Nat
  epochs : List (K × Nat)
  pending : List K

/-- What `settled` has read, and whether this is its second read. -/
structure SettledRead (K : Type*) where
  retried : Bool
  cursor : Option K
  rows : List (K × EpochRow)

def SettledRead.start : SettledRead K := ⟨false, none, []⟩

/-- What comes of a page of `settled`. -/
inductive SettledStep (K : Type*)
  | reading (read : SettledRead K)
  | settled (snapshot : EpochSnapshot K)
  | unsettled (write : Unsettled K)

variable [LinearOrder K]

def EpochSnapshot.ofRows (whole : K) (rows : List (K × EpochRow)) : EpochSnapshot K where
  version := ((Dict.lookup whole rows).map EpochRow.epoch).getD 0
  writing := (Dict.lookup whole rows).bind EpochRow.writing
  epochs := rows.filterMap fun e =>
    if e.1 ≠ whole ∧ 0 < e.2.epoch then some (e.1, e.2.epoch) else none
  previous := rows.filterMap fun e =>
    if e.1 = whole ∨ 0 < e.2.epoch then some (e.1, e.2.previous) else none
  pending := rows.filterMap fun e => if e.1 ≠ whole ∧ e.2.pending.isSome then some e.1 else none

namespace SettledRead

/-- The next page of `settled`. `gone` says that the write's writer was found gone and the write
abandoned before the table is read again. -/
def next (whole : K) (size : Nat) (t : KeyedTable K EpochRow) (gone : Bool) (r : SettledRead K) :
    SettledStep K :=
  let page := t.page size r.cursor
  let rows := r.rows ++ page.1
  match page.2 with
  | some last => .reading { r with cursor := some last, rows := rows }
  | none =>
    let snapshot := EpochSnapshot.ofRows whole rows
    match snapshot.writing with
    | none => .settled snapshot
    | some version =>
      if gone = true ∧ r.retried = false then .reading ⟨true, none, []⟩
      else .unsettled ⟨version, snapshot.epochs, snapshot.pending⟩

def Passed (whole : K) (r : SettledRead K) : Prop := ¬ KeyedTable.Past r.cursor whole

def seen (whole : K) (r : SettledRead K) : Option EpochRow := Dict.lookup whole r.rows

/-- The version row, if there is one, is of the version and no write is in progress. -/
def Says (row : Option EpochRow) (version : Nat) : Prop :=
  (row.map EpochRow.epoch).getD 0 = version ∧ row.bind EpochRow.writing = none

def Tidy (whole : K) (r : SettledRead K) : Prop := ¬ r.Passed whole → r.seen whole = none

variable {whole : K} {size : Nat} {t : KeyedTable K EpochRow} {gone : Bool}
  {r r' : SettledRead K} {snapshot : EpochSnapshot K}

lemma not_passed_start (retried : Bool) : ¬ Passed whole ⟨retried, none, []⟩ := by
  simp [Passed, KeyedTable.Past]

lemma tidy_start (retried : Bool) : Tidy whole ⟨retried, none, []⟩ := fun _ => rfl

lemma reading_of_next (hi : 0 < size) (ht : r.Tidy whole)
    (hnext : r.next whole size t gone = .reading r') :
    r'.Tidy whole ∧ (r'.Passed whole → r.Passed whole ∧ r'.seen whole = r.seen whole ∨
      ¬ r.Passed whole ∧ r'.seen whole = t.get whole) := by
  have hl := t.lookup_append_page hi r.cursor fun hps => ht (not_not.2 hps)
  simp only [next] at hnext
  cases hla : (t.page size r.cursor).2 with
  | some last =>
    rw [hla] at hnext hl
    cases hnext
    have hps : KeyedTable.Past (some last) whole ↔ last < whole := by simp [KeyedTable.Past]
    by_cases hpa : r.Passed whole
    · rw [if_neg hpa] at hl
      refine ⟨fun ho => ?_, fun _ => .inl ⟨hpa, hl⟩⟩
      exact absurd (fun hps => hpa fun c hc =>
        (KeyedTable.past_of_page hla c hc).trans (hps last rfl)) ho
    rw [if_pos (not_not.1 hpa)] at hl
    refine ⟨fun ho => hl.trans (if_neg ?_), fun hp' => .inr ⟨hpa, hl.trans (if_pos ?_)⟩⟩
    · have hlt := hps.1 (not_not.1 ho)
      exact fun hle => absurd (hle last rfl) (not_le.2 hlt)
    rintro c ⟨⟩
    exact not_lt.1 fun hlt => hp' (hps.2 hlt)
  | none =>
    rw [hla] at hnext
    simp only at hnext
    split at hnext
    · cases hnext
    split_ifs at hnext
    cases hnext
    exact ⟨tidy_start true, fun hpa => absurd hpa (not_passed_start true)⟩

lemma settled_of_next (hi : 0 < size) (ht : r.Tidy whole)
    (hnext : r.next whole size t gone = .settled snapshot) :
    ∃ row, (r.Passed whole ∧ row = r.seen whole ∨ ¬ r.Passed whole ∧ row = t.get whole) ∧
      Says row snapshot.version := by
  have hl := t.lookup_append_page hi r.cursor fun hps => ht (not_not.2 hps)
  simp only [next] at hnext
  cases hla : (t.page size r.cursor).2 with
  | some =>
    rw [hla] at hnext
    cases hnext
  | none =>
    rw [hla] at hnext hl
    simp only at hnext
    split at hnext
    next hw =>
      cases hnext
      refine ⟨_, ?_, rfl, hw⟩
      by_cases hpa : r.Passed whole
      · exact .inl ⟨hpa, hl.trans (if_neg hpa)⟩
      refine .inr ⟨hpa, hl.trans ?_⟩
      rw [if_pos (not_not.1 hpa), if_pos (by rintro _ ⟨⟩)]
    next => split_ifs at hnext

end SettledRead

namespace EpochDb

/-- Since `p`, where no write was in progress, no version has been taken. -/
structure Still (whole : K) (p s : EpochDb K D ι) : Prop where
  epoch : epochOf s.table whole = epochOf p.table whole
  writing : writingOf s.table whole = none
  data : s.data = p.data

/-- A version has been taken since `p`. -/
def Overtaken (whole : K) (p s : EpochDb K D ι) : Prop :=
  epochOf p.table whole < latestOf s.table whole

/-- A transaction that has written data passes the fence of `touch` or of `commit` before it
commits. -/
def Fenced (s : EpochDb K D ι) : EpochAct K D ι → Prop
  | .commitTx i => ∀ tx ∈ s.txs i, tx.wrote = true → tx.fenced = true
  | _ => True

instance (s : EpochDb K D ι) (a) : Decidable (s.Fenced a) := by
  unfold Fenced
  split <;> infer_instance

def Unwritten (s : EpochDb K D ι) : Prop :=
  ∀ i tx, s.txs i = some tx → tx.wrote = false → tx.edit = id

variable {whole : K} {p s s' : EpochDb K D ι} {a : EpochAct K D ι}

lemma Still.latestOf_eq (h : Still whole p s) : latestOf s.table whole = epochOf p.table whole := by
  rw [latestOf, h.writing, h.epoch]
  exact Nat.max_zero _

lemma Still.refl (h : writingOf s.table whole = none) : Still whole s s := ⟨rfl, h, rfl⟩

variable [DecidableEq ι]

lemma Unwritten.step (h : s.Unwritten) (hm : s.Moves whole a s') : s'.Unwritten := by
  have hu : ∀ (i : ι) (tx : EpochTx K D), (tx.wrote = false → tx.edit = id) →
      ∀ j tx', Function.update s.txs i (some tx) j = some tx' → tx'.wrote = false →
        tx'.edit = id := by
    intro i tx hi
    refine forall_update (I := fun _ (o : Option (EpochTx K D)) => ∀ tx', o = some tx' →
      tx'.wrote = false → tx'.edit = id) h ?_
    rintro tx' ⟨⟩
    exact hi
  have he : ∀ (i : ι) j tx', Function.update s.txs i none j = some tx' → tx'.wrote = false →
      tx'.edit = id := by
    intro i
    refine forall_update (I := fun _ (o : Option (EpochTx K D)) => ∀ tx', o = some tx' →
      tx'.wrote = false → tx'.edit = id) h ?_
    rintro tx' ⟨⟩
  cases hm with
  | openTx i => exact hu i _ fun _ => rfl
  | noRow i tx htx | locks _ i tx pc htx => exact hu i _ (h i tx htx)
  | ends _ i => exact he i
  | takes i tx htx | fences i tx ver scopes htx | closes i tx ver scopes row htx
  | marks i tx ver rest commits htx | checked i tx ver htx | moves i tx ver htx =>
    exact hu i _ (h i tx htx)
  | writes i => exact hu i _ nofun
  | commits i => exact he i

lemma Inv.latestOf_le (h : s.Inv whole) (hm : s.Moves whole a s') :
    latestOf s.table whole ≤ latestOf s'.table whole := by
  rcases committed_of_moves hm with ⟨ht, -⟩ | ⟨i, tx, -, htx, -, rfl⟩
  · rw [ht]
  · exact (h.viewInv htx).latest

lemma Overtaken.step (ho : Overtaken whole p s) (h : s.Inv whole)
    (hm : s.Moves whole a s') : Overtaken whole p s' :=
  lt_of_lt_of_le ho (h.latestOf_le hm)

lemma Still.step (hst : Still whole p s) (h : s.Inv whole) (hr : s.Unwritten)
    (he : s.Fenced a) (hm : s.Moves whole a s') : Still whole p s' ∨ Overtaken whole p s' := by
  rcases committed_of_moves hm with ⟨ht, hd⟩ | ⟨i, tx, rfl, htx, hpc, rfl⟩
  · refine .inl ⟨?_, ?_, ?_⟩
    · rw [ht, hst.epoch]
    · rw [ht, hst.writing]
    · rw [hd, hst.data]
  have hview := h.viewInv htx
  by_cases ho : Overtaken whole p (s.committed i tx)
  · exact .inr ho
  have hl : latestOf (s.view tx) whole ≤ epochOf p.table whole := not_lt.1 ho
  have hg := hview.grows whole
  rw [hst.epoch] at hg
  refine .inl ⟨?_, ?_, ?_⟩
  · exact le_antisymm ((le_max_left _ _).trans hl) hg
  · cases hw : writingOf (s.committed i tx).table whole with
    | none => rfl
    | some ver =>
      have hlt := (hview.sound (.inl hpc)).1.writing ver hw
      have hle := (hview.sound (.inl hpc)).1.latestOf_eq hw
      rw [hle] at hl
      exact absurd (hg.trans_lt hlt) (not_lt.2 hl)
  have hwo : tx.wrote = false := by
    by_contra hwo
    rw [Bool.not_eq_false] at hwo
    rcases hview.fenced (he tx htx hwo) with hw | hlt
    · rw [hst.writing] at hw
      cases hw
    rw [hst.latestOf_eq] at hlt
    exact absurd hlt (not_lt.2 hl)
  change tx.edit s.data = p.data
  rw [hr i tx htx hwo, id, hst.data]

end EpochDb

end ThreeTears
