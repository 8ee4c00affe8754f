import ThreeTears.Collections.EpochMarks
import ThreeTears.Lib.Families

/-!
# What the version row's lock keeps apart

A transaction that has the version row to itself sees a table that no other changes, and what it
makes of it is sound. One that shares it has only marked scopes, for the write in progress. Without
it a transaction has written nothing.
-/

namespace ThreeTears

open List

variable {K D ι : Type*} [LinearOrder K]

/-- What a transaction makes of the table, by where it stands: `base` is the last committed
version. -/
def Stage (whole : K) (base : Nat) (t : KeyedTable K EpochRow) (touches : Nat × K → Prop) :
    EpochPc K → Prop
  | .marking version rest true => whole ∉ rest ∧ base < version ∧ MidCommit whole version t ∧
      ∀ touch, touches touch → CoversMidCommit whole version t touch
  | .checking version => base < version ∧ MidCommit whole version t ∧
      ∀ touch, touches touch → CoversMidCommit whole version t touch
  | .moving version => base < version ∧ MidCommit whole version t ∧
      ∀ touch, touches touch → CoversMidCommit whole version t touch
  | .marking version rest false => whole ∉ rest ∧ writingOf t whole = some version ∧
      TableSound whole t ∧ ∀ touch, touches touch → Covers whole t touch
  | _ => TableSound whole t ∧ ∀ touch, touches touch → Covers whole t touch

section Stage

variable {whole : K} {base ver : Nat} {t : KeyedTable K EpochRow} {touches : Nat × K → Prop}
  {rest : List K}

lemma Stage.marked_commit (hr : whole ∉ rest) (hb : base < ver) (hm : MidCommit whole ver t)
    (hcov : ∀ touch, touches touch → CoversMidCommit whole ver t touch) :
    Stage whole base t touches (.marked ver rest true) := by
  by_cases hi : rest = []
  · rw [EpochPc.marked, if_pos hi, if_pos rfl]
    exact ⟨hb, hm, hcov⟩
  rw [EpochPc.marked, if_neg hi]
  exact ⟨hr, hb, hm, hcov⟩

lemma Stage.marked_touch (hr : whole ∉ rest) (hw : writingOf t whole = some ver)
    (hsn : TableSound whole t) (hcov : ∀ touch, touches touch → Covers whole t touch) :
    Stage whole base t touches (.marked ver rest false) := by
  by_cases hi : rest = []
  · rw [EpochPc.marked, if_pos hi, if_neg Bool.false_ne_true]
    exact ⟨hsn, hcov⟩
  rw [EpochPc.marked, if_neg hi]
  exact ⟨hr, hw, hsn, hcov⟩

end Stage

namespace EpochDb

/-- The write touched the scope, as far as this transaction sees. -/
def Marked (s : EpochDb K D ι) (tx : EpochTx K D) (touch : Nat × K) : Prop :=
  touch ∈ tx.marked ∨ ∃ epoch, (touch.1, touch.2, epoch) ∈ s.touched

structure ViewInv (whole : K) (s : EpochDb K D ι) (tx : EpochTx K D) : Prop where
  stage : Stage whole (epochOf s.table whole) (s.view tx) (s.Marked tx) tx.pc
  grows : ∀ k, epochOf s.table k ≤ epochOf (s.view tx) k
  latest : latestOf s.table whole ≤ latestOf (s.view tx) whole
  still : tx.closed = [] → ∀ k, epochOf (s.view tx) k = epochOf s.table k
  begun : (tx.begun ++ s.begun).Pairwise (· > ·)
  begun_le : ∀ version ∈ tx.begun ++ s.begun, version ≤ latestOf (s.view tx) whole
  fresh : ∀ version ∈ tx.begun, latestOf s.table whole < version
  writing : ∀ version ∈ writingOf (s.view tx) whole,
    version ∈ tx.begun ∨ writingOf s.table whole = some version
  closed : ∀ version ∈ tx.closed, version ∈ tx.begun ∨ writingOf s.table whole = some version
  marked : ∀ touch ∈ tx.marked, epochOf s.table whole < touch.1
  fenced : tx.fenced = true → (writingOf s.table whole).isSome ∨
    latestOf s.table whole < latestOf (s.view tx) whole

structure Sharing (whole : K) (s : EpochDb K D ι) (tx : EpochTx K D) : Prop where
  versionRow : tx.own.get whole = none
  rows : ∀ k row, tx.own.get k = some row →
    row.epoch = epochOf s.table k ∧ row.pending = writingOf s.table whole
  writing : (writingOf s.table whole).isSome
  marked : ∀ touch ∈ tx.marked, writingOf s.table whole = some touch.1 ∧ (tx.own.get touch.2).isSome
  begun : tx.begun = []
  closed : tx.closed = []
  pc : tx.pc = .ready ∨ ∃ version rest, tx.pc = .marking version rest false ∧
    whole ∉ rest ∧ writingOf s.table whole = some version

structure Idle (tx : EpochTx K D) : Prop where
  own : tx.own = .empty
  begun : tx.begun = []
  marked : tx.marked = []
  closed : tx.closed = []
  fenced : tx.fenced = false
  pc : tx.pc = .ready ∨ tx.pc = .taking

/-- What a transaction may have done, by the lock it has. -/
inductive Mode (whole : K) (s : EpochDb K D ι) (i : ι) (tx : EpochTx K D) : Prop
  | owning (howner : (s.locks whole).owner = some i) (hview : s.ViewInv whole tx)
  | sharing (howner : (s.locks whole).owner = none) (hshares : i ∈ (s.locks whole).shares)
      (h : s.Sharing whole tx)
  | idle (howner : (s.locks whole).owner ≠ some i) (hshares : i ∉ (s.locks whole).shares)
      (h : Idle tx)

structure Committed (whole : K) (s : EpochDb K D ι) : Prop where
  sound : TableSound whole s.table
  touched : ∀ touch ∈ s.touched, touch.2.2 < touch.1 ∧ Covers whole s.table (touch.1, touch.2.1)
  begun : s.begun.Pairwise (· > ·)
  begun_le : ∀ version ∈ s.begun, version ≤ latestOf s.table whole

structure Inv (whole : K) (s : EpochDb K D ι) : Prop where
  committed : s.Committed whole
  modes : ∀ i tx, s.txs i = some tx → s.Mode whole i tx
  rows : ∀ i tx k, s.txs i = some tx → (tx.own.get k).isSome → (s.locks k).owner = some i
  owner : ∀ i, (s.locks whole).owner = some i →
    (s.txs i).isSome ∧ ∀ j ∈ (s.locks whole).shares, j = i
  shares : ∀ i ∈ (s.locks whole).shares, (s.txs i).isSome

variable {whole : K} {s s' : EpochDb K D ι} {tx : EpochTx K D}

lemma view_of_own (h : tx.own = .empty) : s.view tx = s.table := by
  rw [view, h]
  rfl

lemma Idle.viewInv (h : Idle tx) (hs : s.Committed whole) : s.ViewInv whole tx := by
  have hview : s.view tx = s.table := view_of_own h.own
  have hcov : ∀ touch, s.Marked tx touch → Covers whole s.table touch := by
    rintro touch (hmem | ⟨epoch, hmem⟩)
    · rw [h.marked] at hmem
      cases hmem
    · exact (hs.touched _ hmem).2
  constructor
  · rw [hview]
    rcases h.pc with hpc | hpc <;> rw [hpc] <;> exact ⟨hs.sound, hcov⟩
  · exact fun k => (congrArg (epochOf · k) hview).ge
  · rw [hview]
  · exact fun _ k => congrArg (epochOf · k) hview
  · rw [h.begun]
    exact hs.begun
  · rw [h.begun, hview]
    exact hs.begun_le
  · simp [h.begun]
  · rw [hview]
    exact fun ver he => .inr he
  · simp [h.closed]
  · simp [h.marked]
  · simp [h.fenced]

lemma Sharing.get_view (h : s.Sharing whole tx) (k : K) :
    epochOf (s.view tx) k = epochOf s.table k ∧ (pendingOf (s.view tx) k = pendingOf s.table k ∨
        k ≠ whole ∧ pendingOf (s.view tx) k = writingOf s.table whole) := by
  cases hown : tx.own.get k with
  | none =>
    have hg : (s.view tx).get k = s.table.get k := by simp [view, hown]
    exact ⟨epochOf_of_get hg, .inl (pendingOf_of_get hg)⟩
  | some row =>
    have hg : (s.view tx).get k = some row := by simp [view, hown]
    obtain ⟨he, hpe⟩ := h.rows k row hown
    refine ⟨?_, .inr ⟨?_, ?_⟩⟩
    · rw [← he, epochOf, hg]
      rfl
    · rintro rfl
      cases h.versionRow.symm.trans hown
    rw [pendingOf, hg]
    exact hpe

lemma Sharing.get_whole (h : s.Sharing whole tx) : (s.view tx).get whole = s.table.get whole := by
  simp [view, h.versionRow]

lemma Sharing.viewInv (h : s.Sharing whole tx) (hs : s.Committed whole) : s.ViewInv whole tx := by
  obtain ⟨ver, hwr⟩ := Option.isSome_iff_exists.1 h.writing
  have hl := hs.sound.latestOf_eq hwr
  have hl' : latestOf (s.view tx) whole = ver :=
    (latestOf_of_get h.get_whole).trans hl
  have hw : epochOf (s.view tx) whole = epochOf s.table whole := epochOf_of_get h.get_whole
  have hlt := hs.sound.writing ver hwr
  have hsn : TableSound whole (s.view tx) := by
    constructor
    · rw [writingOf_of_get h.get_whole, hw]
      exact hs.sound.writing
    · intro k
      rw [(h.get_view k).1, hw]
      exact hs.sound.epochs k
    intro k hk mark hm
    rw [hw, hl']
    rcases (h.get_view k).2 with he | ⟨-, he⟩
    · rw [← hl]
      exact hs.sound.pending k hk mark (he ▸ hm)
    rw [he, hwr] at hm
    cases hm
    exact ⟨hlt, le_rfl⟩
  have hcov : ∀ touch, s.Marked tx touch → Covers whole (s.view tx) touch := by
    rintro touch (hmem | ⟨epoch, hmem⟩)
    · obtain ⟨he, hsome⟩ := h.marked touch hmem
      obtain ⟨row, hrow⟩ := Option.isSome_iff_exists.1 hsome
      cases hwr.symm.trans he
      refine ⟨?_, hl'.ge, fun hle => ?_, fun _ => ⟨touch.1, ?_, le_rfl⟩⟩
      · intro he
        rw [he, h.versionRow] at hrow
        cases hrow
      · rw [hw] at hle
        exact absurd hle (not_le.2 hlt)
      have hg : (s.view tx).get touch.2 = some row := by simp [view, hrow]
      rw [pendingOf, hg]
      exact (h.rows _ row hrow).2.trans hwr
    have hcov := (hs.touched _ hmem).2
    refine ⟨hcov.scope, ?_, fun hle => ?_, fun hlt => ?_⟩
    · rw [hl', ← hl]
      exact hcov.le
    · rw [(h.get_view _).1]
      exact hcov.moved (hw ▸ hle)
    obtain ⟨mark, hm, hle⟩ := hcov.stands (hw ▸ hlt)
    rcases (h.get_view touch.2).2 with he | ⟨-, he⟩
    · exact ⟨mark, he ▸ hm, hle⟩
    · exact ⟨ver, he.trans hwr, hl ▸ hcov.le⟩
  constructor
  · rcases h.pc with hpc | ⟨ver', rest, hpc, hr, hve⟩
    · rw [hpc]
      exact ⟨hsn, hcov⟩
    rw [hpc]
    exact ⟨hr, (writingOf_of_get h.get_whole).trans hve, hsn, hcov⟩
  · exact fun k => (h.get_view k).1.ge
  · rw [hl, hl']
  · exact fun _ k => (h.get_view k).1
  · rw [h.begun]
    exact hs.begun
  · rw [h.begun, hl', ← hl]
    exact hs.begun_le
  · simp [h.begun]
  · rw [writingOf_of_get h.get_whole]
    exact fun ver hve => .inr hve
  · simp [h.closed]
  · intro touch hmem
    exact hs.sound.writing _ (h.marked touch hmem).1
  · exact fun _ => .inl h.writing

lemma Inv.viewInv (h : s.Inv whole) {i : ι} (htx : s.txs i = some tx) : s.ViewInv whole tx := by
  cases h.modes i tx htx with
  | owning _ hview => exact hview
  | sharing _ _ hh => exact hh.viewInv h.committed
  | idle _ _ hidle => exact hidle.viewInv h.committed

/-! ### Statements of one transaction -/

section Statements

variable {tx' : EpochTx K D} {rows : KeyedTable K EpochRow} {ver : Nat} {scopes : List K}

lemma get_view_union (hown : tx'.own = rows.union tx.own) (k : K) :
    (s.view tx').get k = (rows.get k).or ((s.view tx).get k) := by
  simp [view, hown, Option.or_assoc]

lemma get_view_insert {row : EpochRow} (hown : tx'.own = (KeyedTable.insert .empty whole row).union
    tx.own) : (s.view tx').get whole = some row ∧
      ∀ k, k ≠ whole → (s.view tx').get k = (s.view tx).get k := by
  refine ⟨by simp [get_view_union hown], fun k hk => ?_⟩
  simp [get_view_union hown, KeyedTable.get_insert_of_ne hk]

lemma get_marks (t : KeyedTable K EpochRow) (ver : Nat) (scopes : List K) (k : K) :
    (marks t ver scopes).get k = if k ∈ scopes then some (pendingRow ver (t.get k)) else none := by
  rw [marks, KeyedTable.get_foldl_insert_map]
  rfl

section

variable (h : s.ViewInv whole tx)
include h

lemma ViewInv.sound (hpc : tx.pc = .ready ∨ tx.pc = .taking ∨ ∃ ver, tx.pc = .abandoning ver) :
    TableSound whole (s.view tx) ∧ ∀ touch, s.Marked tx touch → Covers whole (s.view tx) touch := by
  have ht := h.stage
  rcases hpc with hpc | hpc | ⟨ver, hpc⟩ <;> rw [hpc] at ht <;> exact ht

lemma ViewInv.setPc {pc : EpochPc K}
    (ht : Stage whole (epochOf s.table whole) (s.view tx) (s.Marked tx) pc) :
    s.ViewInv whole { tx with pc := pc } :=
  { h with stage := ht }

lemma ViewInv.fence (hpc : tx.pc = .ready) (hscopes : whole ∉ scopes)
    (hw : writingOf (s.view tx) whole = some ver) :
    s.ViewInv whole { tx with pc := .marked ver scopes false, fenced := true } := by
  obtain ⟨hsn, hcov⟩ := h.sound (.inl hpc)
  refine { h with
    stage := ?_
    fenced := fun _ => ?_ }
  · exact .marked_touch hscopes hw hsn hcov
  rcases h.writing ver hw with hmem | he
  · refine .inr (lt_of_lt_of_le (h.fresh ver hmem) ?_)
    exact h.begun_le ver (mem_append_left _ hmem)
  · exact .inl (he ▸ rfl)

lemma ViewInv.take (hpc : tx.pc = .taking)
    (hown : tx'.own = (KeyedTable.insert .empty whole (beginRow ((s.view tx).get whole))).union
      tx.own)
    (hb : tx'.begun = (latestOf (s.view tx) whole + 1) :: tx.begun) (hp' : tx'.pc = .ready)
    (hm : tx'.marked = tx.marked) (hc : tx'.closed = tx.closed)
    (hfe : tx'.fenced = tx.fenced) : s.ViewInv whole tx' := by
  obtain ⟨hrow, ho⟩ := get_view_insert (s := s) hown
  obtain ⟨hsn, hcov⟩ := h.sound (.inr (.inl hpc))
  have he : ∀ k, epochOf (s.view tx') k = epochOf (s.view tx) k := by
    intro k
    rcases eq_or_ne k whole with rfl | hk
    · exact epochOf_beginRow hrow
    · exact epochOf_of_get (ho k hk)
  have hl := latestOf_beginRow hrow
  have hma : ∀ touch, s.Marked tx' touch → s.Marked tx touch := by
    intro touch
    rw [Marked, Marked, hm]
    exact id
  constructor
  · rw [hp']
    exact ⟨hsn.begin hrow ho, fun touch ht =>
      (hcov touch (hma touch ht)).begin hrow ho⟩
  · exact fun k => (he k).symm ▸ h.grows k
  · rw [hl]
    exact Nat.le_succ_of_le h.latest
  · exact fun hi k => (he k).trans (h.still (hc ▸ hi) k)
  · rw [hb, cons_append, pairwise_cons]
    exact ⟨fun v hv => Nat.lt_succ_of_le (h.begun_le v hv), h.begun⟩
  · rw [hb, hl]
    intro v hv
    rcases mem_cons.1 hv with rfl | hv
    · exact le_rfl
    · exact Nat.le_succ_of_le (h.begun_le v hv)
  · rw [hb]
    intro v hv
    rcases mem_cons.1 hv with rfl | hv
    · exact Nat.lt_succ_of_le h.latest
    · exact h.fresh v hv
  · rw [writingOf_beginRow hrow, hb]
    rintro v ⟨⟩
    exact .inl mem_cons_self
  · rw [hc, hb]
    exact fun v hv => (h.closed v hv).imp_left (mem_cons_of_mem _)
  · rw [hm]
    exact h.marked
  rw [hfe, hl]
  exact fun hf => (h.fenced hf).imp_right Nat.lt_succ_of_lt

lemma ViewInv.close (hpc : tx.pc = .ready ∨ tx.pc = .abandoning ver) (hscopes : whole ∉ scopes)
    {row : EpochRow} (hrow : (s.view tx).get whole = some row) (hw : row.writing = some ver)
    (hown : tx'.own = (KeyedTable.insert .empty whole (closedRow ver row)).union tx.own)
    (hc : tx'.closed = ver :: tx.closed) (hp' : tx'.pc = .marked ver scopes true)
    (hb : tx'.begun = tx.begun) (hmk : tx'.marked = tx.marked) : s.ViewInv whole tx' := by
  obtain ⟨hr', ho⟩ := get_view_insert (s := s) hown
  obtain ⟨hsn, hcov⟩ := h.sound (hpc.imp_right fun hpc => .inr ⟨ver, hpc⟩)
  have he : writingOf (s.view tx) whole = some ver := by simp [writingOf, hrow, hw]
  have hm := hsn.close hrow hw hr' ho
  have hl : latestOf (s.view tx') whole = latestOf (s.view tx) whole := by
    rw [hsn.latestOf_eq he, latestOf, hm.epoch, hm.writing]
    exact max_eq_left (Nat.zero_le _)
  have hlt := hsn.writing ver he
  have hg : ∀ k, epochOf (s.view tx) k ≤ epochOf (s.view tx') k := by
    intro k
    rcases eq_or_ne k whole with rfl | hk
    · rw [hm.epoch]
      exact le_of_lt hlt
    · exact (epochOf_of_get (ho k hk)).ge
  have hst : MidCommit whole ver (s.view tx') ∧
      ∀ touch, s.Marked tx' touch → CoversMidCommit whole ver (s.view tx') touch := by
    refine ⟨hm, fun touch ht => ?_⟩
    rw [Marked, hmk] at ht
    exact (hcov touch ht).close hrow hw ho hsn
  constructor
  · rw [hp']
    exact .marked_commit hscopes (lt_of_le_of_lt (h.grows whole) hlt) hst.1 hst.2
  · exact fun k => le_trans (h.grows k) (hg k)
  · exact hl ▸ h.latest
  · rw [hc]
    exact fun hi => absurd hi (cons_ne_nil _ _)
  · exact hb ▸ h.begun
  · rw [hb, hl]
    exact h.begun_le
  · exact hb ▸ h.fresh
  · rw [hm.writing]
    rintro v ⟨⟩
  · rw [hc, hb]
    intro v hv
    rcases mem_cons.1 hv with rfl | hv
    · exact h.writing v he
    · exact h.closed v hv
  · exact hmk ▸ h.marked
  rw [hl]
  rintro -
  rcases h.writing ver he with hmem | hq
  · refine .inr (lt_of_lt_of_le (h.fresh ver hmem) ?_)
    exact h.begun_le ver (mem_append_left _ hmem)
  · exact .inl (hq ▸ rfl)

lemma ViewInv.of_marks {rest : List K} (hr : whole ∉ rest)
    (hown : tx'.own = (marks (s.view tx) ver rest).union tx.own)
    (hm : tx'.marked = rest.map (fun k => (ver, k)) ++ tx.marked)
    (hb : tx'.begun = tx.begun) (hc : tx'.closed = tx.closed)
    (hfe : tx'.fenced = tx.fenced) (hba : epochOf s.table whole < ver)
    (hst : Stage whole (epochOf s.table whole) (s.view tx') (s.Marked tx') tx'.pc) :
    s.ViewInv whole tx' := by
  have hg : ∀ k, (s.view tx').get k =
      if k ∈ rest then some (pendingRow ver ((s.view tx).get k)) else (s.view tx).get k := by
    intro k
    rw [get_view_union hown, get_marks]
    split_ifs <;> simp
  have he := epochOf_pendingRow hg
  have hw := get_whole_pendingRow hr hg
  have hl := latestOf_of_get hw
  constructor
  · exact hst
  · exact fun k => (he k).symm ▸ h.grows k
  · exact hl.symm ▸ h.latest
  · exact fun hi k => (he k).trans (h.still (hc ▸ hi) k)
  · exact hb ▸ h.begun
  · rw [hb, hl]
    exact h.begun_le
  · exact hb ▸ h.fresh
  · rw [writingOf_of_get hw, hb]
    exact h.writing
  · rw [hc, hb]
    exact h.closed
  · rw [hm]
    intro touch ht
    rcases mem_append.1 ht with ht | ht
    · obtain ⟨k, -, rfl⟩ := List.mem_map.1 ht
      exact hba
    · exact h.marked touch ht
  rw [hfe, hl]
  exact h.fenced

end

lemma marked_of_marks {rest : List K}
    (hm : tx'.marked = rest.map (fun k => (ver, k)) ++ tx.marked) {touch : Nat × K}
    (h : s.Marked tx' touch) : (touch.1 = ver ∧ touch.2 ∈ rest) ∨ s.Marked tx touch := by
  rcases h with hmem | hmem
  · rw [hm] at hmem
    rcases mem_append.1 hmem with hmem | hmem
    · obtain ⟨k, hk, rfl⟩ := List.mem_map.1 hmem
      exact .inl ⟨rfl, hk⟩
    · exact .inr (.inl hmem)
  · exact .inr (.inr hmem)

lemma ViewInv.marksNext (h : s.ViewInv whole tx) {rest : List K} {commits : Bool}
    (hpc : tx.pc = .marking ver rest commits)
    (hown : tx'.own = (marks (s.view tx) ver (rest.take touchBatch)).union tx.own)
    (hm : tx'.marked = (rest.take touchBatch).map (fun k => (ver, k)) ++ tx.marked)
    (hp' : tx'.pc = .marked ver (rest.drop touchBatch) commits)
    (hbe : tx'.begun = tx.begun) (hc : tx'.closed = tx.closed)
    (hfe : tx'.fenced = tx.fenced) : s.ViewInv whole tx' := by
  have hst := h.stage
  rw [hpc] at hst
  have hg : ∀ k, (s.view tx').get k =
      if k ∈ rest.take touchBatch then some (pendingRow ver ((s.view tx).get k))
      else (s.view tx).get k := by
    intro k
    rw [get_view_union hown, get_marks]
    split_ifs <;> simp
  cases commits with
  | true =>
    obtain ⟨hr, hba, hi, hcov⟩ := hst
    have hb : whole ∉ rest.take touchBatch := fun hmem => hr (mem_of_mem_take hmem)
    apply h.of_marks hb hown hm hbe hc hfe hba
    rw [hp']
    refine .marked_commit (fun hmem => hr (mem_of_mem_drop hmem)) hba
      (hi.mark hb hg) fun touch ht => ?_
    rcases marked_of_marks hm ht with ⟨he, hk⟩ | ht
    · exact (show touch = (ver, touch.2) from Prod.ext he rfl) ▸
        coversMidCommit_mark hb hg hk
    · exact (hcov touch ht).mark hg
  | false =>
    obtain ⟨hr, hw, hsn, hcov⟩ := hst
    have hb : whole ∉ rest.take touchBatch := fun hmem => hr (mem_of_mem_take hmem)
    have hba := lt_of_le_of_lt (h.grows whole) (hsn.writing ver hw)
    apply h.of_marks hb hown hm hbe hc hfe hba
    rw [hp']
    refine .marked_touch (fun hmem => hr (mem_of_mem_drop hmem))
      ((writingOf_of_get (get_whole_pendingRow hb hg)).trans hw)
      (hsn.mark hb hg hw) fun touch ht => ?_
    rcases marked_of_marks hm ht with ⟨he, hk⟩ | ht
    · exact (show touch = (ver, touch.2) from Prod.ext he rfl) ▸
        covers_mark hb hg hsn hw hk
    · exact (hcov touch ht).mark hb hg

lemma ViewInv.move (h : s.ViewInv whole tx) (hpc : tx.pc = .moving ver)
    (hown : tx'.own = (moved whole (s.view tx) ver).union tx.own) (hp' : tx'.pc = .ready)
    (hb : tx'.begun = tx.begun) (hmk : tx'.marked = tx.marked)
    (hc : tx'.closed = tx.closed) (he : tx'.fenced = tx.fenced) : s.ViewInv whole tx' := by
  have hst := h.stage
  rw [hpc] at hst
  obtain ⟨hba, hm, hcov⟩ := hst
  have hg := get_view_union (s := s) hown
  have hw := get_whole_moved hg
  have hl := latestOf_of_get hw
  constructor
  · rw [hp']
    refine ⟨hm.move hg, fun touch ht => ?_⟩
    rw [Marked, hmk] at ht
    exact (hcov touch ht).move hg hm
  · intro k
    rcases eq_or_ne k whole with rfl | hk
    · exact (epochOf_of_get hw).symm ▸ h.grows k
    rw [epochOf_moved hg hk]
    split_ifs
    · exact le_of_lt (lt_of_le_of_lt (h.grows k) (hm.epochs k hk))
    · exact h.grows k
  · exact hl.symm ▸ h.latest
  · -- the fence of the commit has moved the version
    intro hni
    have hi := h.still (hc ▸ hni) whole
    rw [hm.epoch] at hi
    exact absurd hi (ne_of_gt hba)
  · exact hb ▸ h.begun
  · rw [hb, hl]
    exact h.begun_le
  · exact hb ▸ h.fresh
  · rw [writingOf_of_get hw, hb]
    exact h.writing
  · rw [hc, hb]
    exact h.closed
  · exact hmk ▸ h.marked
  rw [he, hl]
  exact h.fenced

end Statements

end EpochDb

end ThreeTears
