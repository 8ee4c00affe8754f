import ThreeTears.Collections.EpochLocks

/-!
# Epochs only move forward

The versions that were begun increase, an epoch is only moved by a commit of the write in progress,
and a scope that a write touched is moved past every epoch it had before.
-/

namespace ThreeTears

open Function Option List RowLock KeyedTable

variable {K D ι : Type*} [LinearOrder K] [DecidableEq ι]

namespace RowLock

variable {l : RowLock ι} {i j : ι}

lemma owner_release_iff : (l.release i).owner = some j ↔ l.owner = some j ∧ j ≠ i := by
  simp only [release, filter_eq_some_iff, ne_eq, decide_not, Bool.not_eq_true',
    decide_eq_false_iff_not]

lemma mem_shares_release_iff : j ∈ (l.release i).shares ↔ j ∈ l.shares ∧ j ≠ i := by simp [release]

end RowLock

namespace EpochDb

variable {whole : K} {s s' : EpochDb K D ι} {tx tx' : EpochTx K D} {i : ι}

omit [DecidableEq ι] in
lemma ViewInv.congr (h : s.ViewInv whole tx) (ht : s'.table = s.table)
    (hb : s'.begun = s.begun) (ho : s'.touched = s.touched) : s'.ViewInv whole tx := by
  have hview : s'.view tx = s.view tx := by rw [view, view, ht]
  have hm : s'.Marked tx = s.Marked tx := by
    funext touch
    rw [Marked, Marked, ho]
  constructor
  · rw [hview, hm, ht]
    exact h.stage
  · rw [hview, ht]
    exact h.grows
  · rw [hview, ht]
    exact h.latest
  · rw [hview, ht]
    exact h.still
  · rw [hb]
    exact h.begun
  · rw [hview, hb]
    exact h.begun_le
  · rw [ht]
    exact h.fresh
  · rw [hview, ht]
    exact h.writing
  · rw [ht]
    exact h.closed
  · rw [ht]
    exact h.marked
  rw [hview, ht]
  exact h.fenced

omit [DecidableEq ι] in
lemma Sharing.congr (h : s.Sharing whole tx) (hw : writingOf s'.table whole =
    writingOf s.table whole) (he : ∀ k, epochOf s'.table k = epochOf s.table k) :
    s'.Sharing whole tx where
  __ := h
  rows k row hrow := by
    rw [he, hw]
    exact h.rows k row hrow
  writing := hw ▸ h.writing
  marked := hw ▸ h.marked
  pc := hw ▸ h.pc

/-- How a statement of a transaction may change the version row's lock. -/
inductive LockStep (l l' : RowLock ι) (i : ι) : Prop
  | same (h : l' = l)
  | take (havailable : l.Available i) (h : l' = l.take i)
  | share (hshareable : l.Shareable i) (h : l' = l.share i)

namespace LockStep

variable {l l' : RowLock ι} {j : ι} (h : LockStep l l' i)
include h

omit [DecidableEq ι] in
lemma owner_of_ne (hj : j ≠ i) (howner : l.owner = some j) : l' = l := by
  cases h with
  | same h => exact h
  | take hav => exact absurd (hav.1 j howner) hj
  | share hshareable => exact absurd (hshareable j howner) hj

omit [DecidableEq ι] in
lemma shares_of_ne (hj : j ≠ i) (howner : l.owner = none)
    (hh : j ∈ l.shares) : l'.owner = none ∧ j ∈ l'.shares := by
  cases h with
  | same h => exact h ▸ ⟨howner, hh⟩
  | take hav => exact absurd (hav.2 j hh) hj
  | share _ h => exact h ▸ ⟨howner, mem_cons_of_mem _ hh⟩

omit [DecidableEq ι] in
lemma idle_of_ne (hj : j ≠ i) (howner : l.owner ≠ some j)
    (hh : j ∉ l.shares) : l'.owner ≠ some j ∧ j ∉ l'.shares := by
  cases h with
  | same h => exact h ▸ ⟨howner, hh⟩
  | take _ h =>
    subst h
    refine ⟨fun he => ?_, hh⟩
    cases he
    exact hj rfl
  | share _ h =>
    subst h
    exact ⟨howner, fun hmem => (mem_cons.1 hmem).elim hj hh⟩

end LockStep

omit [DecidableEq ι] in
lemma Mode.of_ne {j : ι} (h : s.Mode whole j tx) (hj : j ≠ i) (ht : s'.table = s.table)
    (hb : s'.begun = s.begun) (ho : s'.touched = s.touched)
    (hlock : LockStep (s.locks whole) (s'.locks whole) i) : s'.Mode whole j tx := by
  cases h with
  | owning howner hview =>
    exact .owning (hlock.owner_of_ne hj howner ▸ howner) (hview.congr ht hb ho)
  | sharing howner hh hsa =>
    obtain ⟨ho', hs'⟩ := hlock.shares_of_ne hj howner hh
    exact .sharing ho' hs' (hsa.congr (by rw [ht]) (by simp [ht]))
  | idle howner hh hidle =>
    obtain ⟨ho', hs'⟩ := hlock.idle_of_ne hj howner hh
    exact .idle ho' hs' hidle

variable (h : s.Inv whole)
include h

lemma Inv.statement (ht : s'.table = s.table) (hb : s'.begun = s.begun)
    (ho : s'.touched = s.touched) (hts : s'.txs = update s.txs i (some tx'))
    (hlock : LockStep (s.locks whole) (s'.locks whole) i)
    (hk : ∀ k j, j ≠ i → (s.locks k).owner = some j → (s'.locks k).owner = some j)
    (hr : ∀ k, (tx'.own.get k).isSome → (s'.locks k).owner = some i)
    (hm : s'.Mode whole i tx') : s'.Inv whole := by
  have hsome : ∀ j, j = i ∨ (s.txs j).isSome → (s'.txs j).isSome := by
    intro j hj
    rw [hts]
    rcases eq_or_ne j i with rfl | hne
    · simp
    rw [update_of_ne hne]
    exact hj.resolve_left hne
  constructor
  · exact ⟨ht ▸ h.committed.sound, ht ▸ ho ▸ h.committed.touched,
      hb ▸ h.committed.begun, ht ▸ hb ▸ h.committed.begun_le⟩
  · intro j tx htx
    rw [hts] at htx
    obtain ⟨rfl, ⟨⟩⟩ | ⟨hj, htx⟩ := of_update_eq htx
    · exact hm
    exact (h.modes j tx htx).of_ne hj ht hb ho hlock
  · intro j tx k htx hrow
    rw [hts] at htx
    obtain ⟨rfl, ⟨⟩⟩ | ⟨hj, htx⟩ := of_update_eq htx
    · exact hr k hrow
    exact hk k j hj (h.rows j tx k htx hrow)
  · intro j howner
    cases hlock with rw [he] at howner ⊢
    | same he => exact ⟨hsome j (.inr (h.owner j howner).1), (h.owner j howner).2⟩
    | take hav he =>
      cases howner
      exact ⟨hsome _ (.inl rfl), hav.2⟩
    | share hshareable he =>
      cases hshareable j howner
      exact ⟨hsome _ (.inl rfl), fun j' hj' => (mem_cons.1 hj').elim id ((h.owner _ howner).2 j')⟩
  intro j hj
  cases hlock with rw [he] at hj
  | same he | take hav he => exact hsome j (.inr (h.shares j hj))
  | share hshareable he => exact hsome j ((mem_cons.1 hj).imp_right (h.shares j))

omit h in
lemma Mode.ended {j : ι} (h : s.Mode whole j tx) (hj : j ≠ i) : (s.ended i).Mode whole j tx := by
  cases h with
  | owning howner hview =>
    exact .owning (owner_release_iff.2 ⟨howner, hj⟩) (hview.congr rfl rfl rfl)
  | sharing howner hh hsa =>
    refine .sharing ?_ (mem_shares_release_iff.2 ⟨hh, hj⟩) (hsa.congr rfl fun _ => rfl)
    refine eq_none_iff_forall_ne_some.2 fun k hk => ?_
    cases howner.symm.trans (owner_release_iff.1 hk).1
  | idle howner hh hidle =>
    exact .idle (fun he => howner (owner_release_iff.1 he).1)
      (fun hmem => hh (mem_shares_release_iff.1 hmem).1) hidle

lemma Inv.of_ended (ht : s'.txs = (s.ended i).txs)
    (hl : s'.locks = (s.ended i).locks) (hc : s'.Committed whole)
    (hm : ∀ j tx, j ≠ i → s.txs j = some tx → s'.Mode whole j tx) : s'.Inv whole := by
  have htx : ∀ j tx, s'.txs j = some tx → j ≠ i ∧ s.txs j = some tx := by
    intro j tx htx
    rw [ht] at htx
    rcases eq_or_ne j i with rfl | hj
    · simp [ended] at htx
    · simpa [ended, hj] using htx
  have hsome : ∀ j, j ≠ i → (s.txs j).isSome → (s'.txs j).isSome := by
    intro j hj hsome
    rw [ht]
    simpa [ended, hj] using hsome
  constructor
  · exact hc
  · exact fun j tx hj => hm j tx (htx j tx hj).1 (htx j tx hj).2
  · intro j tx k hj hrow
    rw [hl]
    exact owner_release_iff.2 ⟨h.rows j tx k (htx j tx hj).2 hrow, (htx j tx hj).1⟩
  · intro j howner
    rw [hl] at howner ⊢
    obtain ⟨howner, hj⟩ := owner_release_iff.1 howner
    refine ⟨hsome j hj (h.owner j howner).1, fun k hk => ?_⟩
    exact (h.owner j howner).2 k (mem_shares_release_iff.1 hk).1
  intro j hj
  rw [hl] at hj
  obtain ⟨hj, he⟩ := mem_shares_release_iff.1 hj
  exact hsome j he (h.shares j hj)

lemma Inv.ended : (s.ended i).Inv whole :=
  h.of_ended rfl rfl ⟨h.committed.sound, h.committed.touched, h.committed.begun,
    h.committed.begun_le⟩ fun j tx hj htx => (h.modes j tx htx).ended hj

omit h in
lemma ViewInv.committed (h : s.ViewInv whole tx) (hpc : tx.pc = .ready)
    (hs : s.Committed whole) : (s.committed i tx).Committed whole := by
  obtain ⟨hsn, hcov⟩ := h.sound (.inl hpc)
  refine ⟨hsn, fun touch ht => ?_, h.begun, h.begun_le⟩
  rcases mem_append.1 ht with ht | ht
  · obtain ⟨mark, hm, rfl⟩ := List.mem_map.1 ht
    exact ⟨lt_of_le_of_lt (hs.sound.epochs _) (h.marked mark hm), hcov _ (.inl hm)⟩
  · exact ⟨(hs.touched touch ht).1, hcov _ (.inr ⟨_, ht⟩)⟩

variable (htx : s.txs i = some tx)
include htx

lemma Inv.commits (hpc : tx.pc = .ready) : (s.committed i tx).Inv whole := by
  refine h.of_ended rfl rfl ((h.viewInv htx).committed hpc h.committed) fun j tx' hj ht' => ?_
  have he := (h.modes j tx' ht').ended hj
  cases h.modes i tx htx with
  | owning howner =>
    cases h.modes j tx' ht' with
    | owning ho' =>
      cases howner.symm.trans ho'
      exact absurd rfl hj
    | sharing ho' => cases howner.symm.trans ho'
    | idle _ _ hidle =>
      cases he with
      | owning ho' =>
        cases howner.symm.trans (owner_release_iff.1 ho').1
        exact absurd rfl hj
      | sharing _ hs' =>
        have hmem := (mem_shares_release_iff.1 hs').1
        exact absurd ((h.owner i howner).2 j hmem) hj
      | idle ho' hs' => exact .idle ho' hs' hidle
  | sharing howner _ hh =>
    cases he with
    | owning ho' => cases howner.symm.trans (owner_release_iff.1 ho').1
    | sharing ho' hs' hh' =>
      refine .sharing ho' hs' (hh'.congr ?_ fun k => (hh.get_view k).1)
      exact writingOf_of_get hh.get_whole
    | idle ho' hs' hi' => exact .idle ho' hs' hi'
  | idle _ _ hidle =>
    have hview : s.view tx = s.table := view_of_own hidle.own
    have ht : (s.committed i tx).touched = s.touched := by
      simp [EpochDb.committed, hidle.marked]
    have hb : (s.committed i tx).begun = s.begun := by simp [EpochDb.committed, hidle.begun]
    cases he with
    | owning ho' hv' => exact .owning ho' (hv'.congr hview hb ht)
    | sharing ho' hs' hh' =>
      refine .sharing ho' hs' (hh'.congr ?_ fun k => ?_)
      · exact congrArg (writingOf · whole) hview
      · exact congrArg (epochOf · k) hview
    | idle ho' hs' hi' => exact .idle ho' hs' hi'

lemma Inv.written {rows : KeyedTable K EpochRow}
    (hta : s'.table = s.table) (hb : s'.begun = s.begun) (ht : s'.touched = s.touched)
    (hts : s'.txs = update s.txs i (some tx')) (hown : tx'.own = rows.union tx.own)
    (hl : ∀ k, s'.locks k = if (rows.get k).isSome then (s.locks k).take i else s.locks k)
    (hav : ∀ k, (rows.get k).isSome → (s.locks k).Available i)
    (hm : s'.Mode whole i tx') : s'.Inv whole := by
  refine h.statement hta hb ht hts ?_ (fun k j hj howner => ?_) (fun k hrow => ?_)
    hm
  · by_cases hsome : (rows.get whole).isSome
    · exact .take (hav whole hsome) (by rw [hl, if_pos hsome])
    · exact .same (by rw [hl, if_neg hsome])
  · rw [hl]
    split_ifs with hsome
    · exact absurd ((hav k hsome).1 j howner) hj
    · exact howner
  rw [hl]
  split_ifs with hsome
  · rfl
  apply h.rows i tx k htx
  rw [hown, get_union, not_isSome_iff_eq_none.1 hsome] at hrow
  exact hrow

lemma Inv.locked (hta : s'.table = s.table) (hb : s'.begun = s.begun) (ht : s'.touched = s.touched)
    (hts : s'.txs = update s.txs i (some tx')) (hown : tx'.own = tx.own) {l : RowLock ι}
    (hl : s'.locks = update s.locks whole l)
    (hlock : LockStep (s.locks whole) l i) (hm : s'.Mode whole i tx') : s'.Inv whole := by
  have hw : s'.locks whole = l := by rw [hl, update_self]
  refine h.statement hta hb ht hts (hw ▸ hlock) (fun k j hj howner => ?_)
    (fun k hrow => ?_) hm
  · rcases eq_or_ne k whole with rfl | hk
    · rw [hw, hlock.owner_of_ne hj howner]
      exact howner
    rw [hl, update_of_ne hk]
    exact howner
  have howner := h.rows i tx k htx (hown ▸ hrow)
  rcases eq_or_ne k whole with rfl | hk
  · rw [hw]
    cases hlock with
    | same he | share _ he => exact he ▸ howner
    | take _ he => exact he ▸ rfl
  rw [hl, update_of_ne hk]
  exact howner

omit htx

omit h

omit [DecidableEq ι] in
lemma Mode.owner_of_pc (h : s.Mode whole i tx) (hr : tx.pc ≠ .ready) (ht : tx.pc ≠ .taking)
    (hm : ∀ version rest, tx.pc ≠ .marking version rest false) :
    (s.locks whole).owner = some i := by
  cases h with
  | owning howner => exact howner
  | sharing _ _ hh =>
    rcases hh.pc with hpc | ⟨version, rest, hpc, -⟩
    · exact absurd hpc hr
    · exact absurd hpc (hm version rest)
  | idle _ _ hidle => exact (hidle.pc.elim hr ht).elim

omit [LinearOrder K] in
lemma pc_marked_false (version : Nat) (rest : List K) : EpochPc.marked version rest false = .ready ∨
      EpochPc.marked version rest false = .marking version rest false := by
  by_cases hi : rest = []
  · exact .inl (by simp [EpochPc.marked, hi])
  · exact .inr (by simp [EpochPc.marked, hi])

variable {version : Nat}

omit [DecidableEq ι] in
lemma Sharing.marksNext (h : s.Sharing whole tx) (hs : s.Committed whole)
    {rest : List K} (hpc : tx.pc = .marking version rest false)
    (hown : tx'.own = (marks (s.view tx) version (rest.take touchBatch)).union tx.own)
    (hma : tx'.marked = (rest.take touchBatch).map (fun k => (version, k)) ++ tx.marked)
    (hp' : tx'.pc = .marked version (rest.drop touchBatch) false)
    (hbe : tx'.begun = tx.begun) (hc : tx'.closed = tx.closed) : s.Sharing whole tx' := by
  obtain ⟨hr, hw⟩ : whole ∉ rest ∧ writingOf s.table whole = some version := by
    rcases h.pc with hre | ⟨version', rest', hm, hr, hw⟩
    · cases hre.symm.trans hpc
    cases hm.symm.trans hpc
    exact ⟨hr, hw⟩
  have hst := (h.viewInv hs).stage
  rw [hpc] at hst
  obtain ⟨-, hw', hsn, -⟩ := hst
  have hb : whole ∉ rest.take touchBatch := fun hmem => hr (mem_of_mem_take hmem)
  have hg : ∀ k, tx'.own.get k = if k ∈ rest.take touchBatch then
      some (pendingRow version ((s.view tx).get k)) else tx.own.get k := by
    intro k
    rw [hown, get_union, get_marks]
    split_ifs <;> simp
  have hrow : ∀ k, k ∈ rest.take touchBatch →
      (pendingRow version ((s.view tx).get k)).epoch = epochOf s.table k ∧
      (pendingRow version ((s.view tx).get k)).pending = writingOf s.table whole := by
    intro k hk
    have hne : k ≠ whole := fun he => hb (he ▸ hk)
    have hle : ∀ mark ∈ pendingOf (s.view tx) k, mark ≤ version := fun mark hmr =>
      hsn.latestOf_eq hw' ▸ (hsn.pending k hne mark hmr).2
    rw [← (h.get_view k).1, hw]
    cases hview : (s.view tx).get k with
    | none => exact ⟨by simp [pendingRow, epochOf, hview], rfl⟩
    | some row =>
      refine ⟨by simp [pendingRow, epochOf, hview], ?_⟩
      simp only [pendingRow, Option.some.injEq]
      refine max_eq_right ?_
      cases hpe : row.pending with
      | none => exact Nat.zero_le _
      | some mark => exact hle mark (by simp [pendingOf, hview, hpe])
  constructor
  · rw [hg, if_neg hb]
    exact h.versionRow
  · intro k row hk
    rw [hg] at hk
    split_ifs at hk with hmem
    · cases hk
      exact hrow k hmem
    · exact h.rows k row hk
  · exact h.writing
  · rw [hma]
    intro touch ht
    rw [hg]
    rcases mem_append.1 ht with ht | ht
    · obtain ⟨k, hk, rfl⟩ := List.mem_map.1 ht
      rw [if_pos hk]
      exact ⟨hw, rfl⟩
    refine ⟨(h.marked touch ht).1, ?_⟩
    split_ifs
    · rfl
    · exact (h.marked touch ht).2
  · exact hbe.trans h.begun
  · exact hc.trans h.closed
  rw [hp']
  refine (pc_marked_false version (rest.drop touchBatch)).imp_right fun he => ?_
  exact ⟨_, _, he, fun hmem => hr (mem_of_mem_drop hmem), hw⟩

variable (h : s.Inv whole)
include h

lemma Inv.fences (htx : s.txs i = some tx) (hpc : tx.pc = .ready)
    {sco : List K} (hscopes : whole ∉ sco)
    (hw : writingOf (s.view tx) whole = some version) (hlock : (s.locks whole).Shareable i) :
    ((s.shareLock i whole).setTx i
      { tx with pc := .marked version sco false, fenced := true }).Inv whole := by
  refine h.locked htx rfl rfl rfl rfl rfl rfl (.share hlock rfl) ?_
  have hp' : ∀ t : KeyedTable K EpochRow, writingOf t whole = some version →
      (EpochPc.marked version sco false = .ready ∨ ∃ version' rest,
        EpochPc.marked version sco false = .marking version' rest false ∧
        whole ∉ rest ∧ writingOf t whole = some version') := fun t ht =>
    (pc_marked_false version sco).imp_right fun he => ⟨_, _, he, hscopes, ht⟩
  have hmem : i ∈ (((s.shareLock i whole).setTx i
      { tx with pc := .marked version sco false, fenced := true }).locks whole).shares := by
    simp [shareLock, setTx, share]
  have ho' : (((s.shareLock i whole).setTx i
      { tx with pc := .marked version sco false, fenced := true }).locks whole).owner =
        (s.locks whole).owner := by
    simp [shareLock, setTx, share]
  cases h.modes i tx htx with
  | owning howner hview =>
    exact .owning (ho'.trans howner)
      ((hview.fence hpc hscopes hw).congr rfl rfl rfl)
  | sharing howner _ hh =>
    rw [writingOf_of_get hh.get_whole] at hw
    exact .sharing (ho'.trans howner) hmem { hh with pc := hp' _ hw }
  | idle howner _ hidle =>
    rw [view_of_own hidle.own] at hw
    have hnone : (s.locks whole).owner = none := by
      refine eq_none_iff_forall_ne_some.2 fun j hj => howner ?_
      exact (hlock j hj) ▸ hj
    refine .sharing (ho'.trans hnone) hmem ⟨?_, ?_, ?_, ?_, hidle.begun, hidle.closed, hp' _ hw⟩
    · simp [hidle.own]
    · simp [hidle.own]
    · exact isSome_iff_exists.2 ⟨_, hw⟩
    · simp [hidle.marked]

lemma Inv.marksNext (htx : s.txs i = some tx) {rest : List K}
    {commits : Bool} (hpc : tx.pc = .marking version rest commits)
    (hlock : ∀ k ∈ rest.take touchBatch, (s.locks k).Available i) :
    (s.marksNext i tx version rest commits).Inv whole := by
  have hsome : ∀ k, ((marks (s.view tx) version (rest.take touchBatch)).get k).isSome →
      k ∈ rest.take touchBatch := by
    intro k hk
    rw [get_marks] at hk
    split_ifs at hk with hmem
    · exact hmem
    · cases hk
  refine h.written htx rfl rfl rfl rfl rfl (fun _ => rfl) (fun k hk => hlock k (hsome k hk)) ?_
  have hw : ∀ t, Stage whole (epochOf s.table whole) t (s.Marked tx) tx.pc → whole ∉ rest := by
    intro t ht
    rw [hpc] at ht
    cases commits <;> exact ht.1
  have hre := hw _ (h.viewInv htx).stage
  have hl : (s.marksNext i tx version rest commits).locks whole = s.locks whole :=
    if_neg fun hk => hre (mem_of_mem_take (hsome whole hk))
  cases h.modes i tx htx with
  | owning howner hview =>
    refine .owning (hl ▸ howner) ?_
    exact ViewInv.congr (hview.marksNext hpc rfl rfl rfl rfl rfl rfl) rfl rfl rfl
  | sharing howner hsr hh =>
    have hc : commits = false := by
      rcases hh.pc with hr | ⟨version', rest', hm, -⟩
      · cases hr.symm.trans hpc
      cases hm.symm.trans hpc
      rfl
    subst hc
    refine .sharing (hl ▸ howner) (hl ▸ hsr) ?_
    exact Sharing.congr (hh.marksNext h.committed hpc rfl rfl rfl rfl rfl) rfl fun _ => rfl
  | idle _ _ hidle => rcases hidle.pc with he | he <;> cases he.symm.trans hpc

variable {a : EpochAct K D ι}

/-- Every step keeps the table, the locks and the transactions in order. -/
theorem Inv.step (hm : s.Moves whole a s') : s'.Inv whole := by
  cases hm with
  | openTx i htx =>
    refine h.statement rfl rfl rfl rfl (.same rfl) (fun _ _ _ howner => howner)
      (by simp [EpochTx.opened]) (.idle (fun howner => ?_) (fun hh => ?_) ?_)
    · simpa [htx] using (h.owner i howner).1
    · simpa [htx] using h.shares i hh
    · exact ⟨rfl, rfl, rfl, rfl, rfl, .inl rfl⟩
  | noRow i tx htx hpc hrow =>
    refine h.statement rfl rfl rfl rfl (.same rfl) (fun _ _ _ howner => howner)
      (fun k => h.rows i tx k htx) ?_
    cases h.modes i tx htx with
    | owning howner hview =>
      refine .owning howner (ViewInv.congr (hview.setPc ?_) rfl rfl rfl)
      exact hview.sound (.inl hpc)
    | sharing _ _ hsa =>
      have hw := hsa.writing
      rw [writingOf, ← hsa.get_whole, hrow] at hw
      cases hw
    | idle howner hh hidle => exact .idle howner hh { hidle with pc := .inr rfl }
  | locks _ _ _ _ htx hpc hlock hnext =>
    refine h.locked htx rfl rfl rfl rfl rfl rfl (.take hlock rfl) ?_
    have hview := h.viewInv htx
    refine .owning (by simp [takeLock, setTx, RowLock.take]) ?_
    refine ViewInv.congr (hview.setPc ?_) rfl rfl rfl
    rcases hnext with rfl | ⟨version, rfl, -⟩ <;> exact hview.sound (.inl hpc)
  | ends => exact h.ended
  | takes _ tx htx hpc hlock =>
    refine h.written htx rfl rfl rfl rfl rfl (fun _ => rfl) (fun k hk => ?_) ?_
    · rcases eq_or_ne k whole with rfl | he
      · exact hlock
      rw [get_insert_of_ne he] at hk
      cases hk
    refine .owning (by simp [took, EpochDb.written, RowLock.take]) ?_
    refine ViewInv.congr ((h.viewInv htx).take hpc rfl ?_ rfl rfl rfl rfl) rfl rfl rfl
    simp only [List.cons.injEq, and_true]
    rw [latestOf, epochOf, writingOf]
    cases (s.view tx).get whole <;> rfl
  | fences _ _ _ _ htx hpc hscopes hw hlock =>
    exact h.fences htx hpc hscopes hw hlock
  | closes _ _ _ _ _ htx hpc hscopes hrow hw hlock =>
    refine h.written htx rfl rfl rfl rfl rfl (fun _ => rfl) (fun k hk => ?_) ?_
    · rcases eq_or_ne k whole with rfl | he
      · exact hlock
      rw [get_insert_of_ne he] at hk
      cases hk
    refine .owning (by simp [EpochDb.closes, EpochDb.written, RowLock.take]) ?_
    exact ViewInv.congr ((h.viewInv htx).close hpc hscopes hrow hw rfl rfl rfl rfl rfl)
      rfl rfl rfl
  | marks _ _ _ _ _ htx hpc hlock => exact h.marksNext htx hpc hlock
  | checked i tx _ htx hpc =>
    have howner := (h.modes i tx htx).owner_of_pc (by simp [hpc]) (by simp [hpc]) (by simp [hpc])
    have hview := h.viewInv htx
    refine h.statement rfl rfl rfl rfl (.same rfl) (fun _ _ _ howner => howner)
      (fun k => h.rows i tx k htx) (.owning howner (ViewInv.congr (hview.setPc ?_) rfl rfl rfl))
    have ht := hview.stage
    rw [hpc] at ht
    exact ht
  | moves i tx _ htx hpc hlock =>
    have howner := (h.modes i tx htx).owner_of_pc (by simp [hpc]) (by simp [hpc]) (by simp [hpc])
    refine h.written htx rfl rfl rfl rfl rfl (fun _ => rfl) (fun k hk => ?_) (.owning ?_ ?_)
    · obtain ⟨row, hrow⟩ := isSome_iff_exists.1 hk
      exact hlock (k, row) (get_eq_some_iff.1 hrow)
    · simp [EpochDb.written, moved, howner]
    · exact ViewInv.congr ((h.viewInv htx).move hpc rfl rfl rfl rfl rfl rfl) rfl rfl rfl
  | writes i tx _ htx =>
    refine h.statement rfl rfl rfl rfl (.same rfl) (fun _ _ _ howner => howner)
      (fun k => h.rows i tx k htx) ?_
    cases h.modes i tx htx with
    | owning howner hview => exact .owning howner { hview with }
    | sharing howner hh hsa => exact .sharing howner hh { hsa with }
    | idle howner hh hidle => exact .idle howner hh { hidle with }
  | commits _ _ htx hpc => exact h.commits htx hpc

omit [DecidableEq ι] h in
lemma Inv.start (data : D) : (start data : EpochDb K D ι).Inv whole where
  committed := by
    refine ⟨⟨?_, fun k => le_rfl, ?_⟩, ?_, List.Pairwise.nil, ?_⟩
    · rintro version ⟨⟩
    · rintro k - mark ⟨⟩
    · exact fun _ h => absurd h not_mem_nil
    · exact fun _ h => absurd h not_mem_nil
  modes := by rintro i tx ⟨⟩
  rows := by rintro i tx k ⟨⟩
  owner := by rintro i ⟨⟩
  shares := by rintro i ⟨⟩

omit h in
lemma committed_of_moves (hm : s.Moves whole a s') : s'.table = s.table ∧ s'.data = s.data ∨
      ∃ i tx, a = .commitTx i ∧ s.txs i = some tx ∧ tx.pc = .ready ∧ s' = s.committed i tx := by
  cases hm with
  | commits i tx htx hpc => exact .inr ⟨i, tx, rfl, htx, hpc, rfl⟩
  | _ => exact .inl ⟨rfl, rfl⟩

lemma Inv.epochOf_le (hm : s.Moves whole a s') (k : K) :
    epochOf s.table k ≤ epochOf s'.table k := by
  rcases committed_of_moves hm with ⟨ht, -⟩ | ⟨i, tx, -, htx, -, rfl⟩
  · rw [ht]
  · exact (h.viewInv htx).grows k

omit h in
lemma inv_of_run {data : D} {as : List (EpochAct K D ι)}
    (hr : (system whole).run (start data) as = some s) : s.Inv whole :=
  StepSystem.run_invariant _ (I := Inv whole) (fun _ _ _ h ht => h.step (moves_of_step ht))
    (.start data) hr

lemma epochOf_le_of_run {as : List (EpochAct K D ι)}
    (hr : (system whole).run s as = some s') (k : K) : epochOf s.table k ≤ epochOf s'.table k := by
  have hb : s'.Inv whole ∧ epochOf s.table k ≤ epochOf s'.table k := by
    refine StepSystem.run_invariant _
      (I := fun t => t.Inv whole ∧ epochOf s.table k ≤ epochOf t.table k)
      (fun t a t' ht hst => ?_) ⟨h, le_rfl⟩ hr
    have hm := moves_of_step hst
    exact ⟨ht.1.step hm, le_trans ht.2 (ht.1.epochOf_le hm k)⟩
  exact hb.2

omit h

lemma table_of_refused {sco : List K} (htx : s.txs i = some tx)
    (hw : writingOf (s.view tx) whole ≠ some version)
    (ht : s.step whole (.commit i version sco) = some s') :
    s'.table = s.table ∧ s'.data = s.data ∧ s'.txs i = none := by
  obtain ⟨tx', ht', ht⟩ := bind_eq_some_iff.1 ht
  cases htx.symm.trans ht'
  have he : s' = s.ended i := by
    by_cases hpc : tx.pc = .ready ∨ tx.pc = .abandoning version ∧ sco = []
    · rw [if_pos hpc] at ht
      cases hrow : (s.view tx).get whole with
      | none =>
        rw [hrow] at ht
        exact (Option.some.inj ht).symm
      | some row =>
        have hne : row.writing ≠ some version := by simpa [writingOf, hrow] using hw
        simp only [hrow, hne, ne_eq, not_false_eq_true, or_true, if_true] at ht
        exact (Option.some.inj ht).symm
    rw [if_neg hpc] at ht
    cases ht
  subst he
  exact ⟨rfl, rfl, update_self _ _ _⟩

/-- The versions of the begins that were not rolled back strictly increase. A write that touched a
scope took a version later than every epoch the scope had when the rows could first be seen: its
mark stands until a version not before it is committed, and the scope's epoch is not before it from
then on. Epochs never decrease, and only a commit of the write in progress moves one or changes
anything. -/
theorem epochs_move_forward {data : D} {as : List (EpochAct K D ι)}
    (hrun : (system whole).run (start data) as = some s) : (s.begun.Pairwise (· > ·) ∧
      ∀ i tx, s.txs i = some tx → (tx.begun ++ s.begun).Pairwise (· > ·)) ∧
    (∀ touch ∈ s.touched, touch.2.2 < touch.1 ∧
      (epochOf s.table whole < touch.1 → ∃ mark ∈ pendingOf s.table touch.2.1, touch.1 ≤ mark) ∧
      (touch.1 ≤ epochOf s.table whole → touch.1 ≤ epochOf s.table touch.2.1)) ∧
    (∀ bs s', (system whole).run s bs = some s' → ∀ k, epochOf s.table k ≤ epochOf s'.table k) ∧
    (∀ a s' k, s.step whole a = some s' → epochOf s'.table k ≠ epochOf s.table k →
      ∃ i tx version, a = .commitTx i ∧ s.txs i = some tx ∧ version ∈ tx.closed ∧
        (version ∈ tx.begun ∨ writingOf s.table whole = some version)) ∧
    ∀ i tx version scopes s', s.txs i = some tx → writingOf (s.view tx) whole ≠ some version →
      s.step whole (.commit i version scopes) = some s' →
      s'.table = s.table ∧ s'.data = s.data ∧ s'.txs i = none := by
  have h := inv_of_run hrun
  refine ⟨⟨h.committed.begun, fun i tx htx => (h.viewInv htx).begun⟩, fun touch ht => ?_,
    fun bs s' hr' k => epochOf_le_of_run h hr' k, fun a s' k hst he => ?_,
    fun i tx version scopes s' htx hw hst => table_of_refused htx hw hst⟩
  · obtain ⟨hlt, hcov⟩ := h.committed.touched touch ht
    exact ⟨hlt, hcov.stands, hcov.moved⟩
  rcases committed_of_moves (moves_of_step hst) with ⟨hta, -⟩ | ⟨i, tx, rfl, htx, -, rfl⟩
  · exact absurd (by rw [hta]) he
  have hview := h.viewInv htx
  have hc : tx.closed ≠ [] := fun hi => he (hview.still hi k)
  obtain ⟨version, hve⟩ := exists_mem_of_ne_nil _ hc
  exact ⟨i, tx, version, rfl, htx, hve, hview.closed version hve⟩

/-- The first write to begin answers 1 and its transaction is rolled back, so the next answers 1
again. -/
def begunTwice : List (EpochAct Nat Unit Unit) :=
  [.openTx (), .lockVersion (), .takeVersion (), .rollback (),
    .openTx (), .lockVersion (), .takeVersion ()]

def supersededWrite : List (EpochAct Nat Unit Unit) :=
  [.openTx (), .lockVersion (), .takeVersion (), .commitTx (),
    .openTx (), .touch () 1 [7], .mark (), .writeData () id, .commitTx (),
    .openTx (), .lockVersion (), .takeVersion (), .commitTx (),
    .openTx (), .commit () 2 [], .readBehind (), .moveScopes (), .commitTx ()]

theorem handed_begunTwice :
    ∃ s, (system 0).run (start ()) begunTwice = some s ∧ s.handed = [1, 1] :=
  StepSystem.exists_run_of_any _ rfl

theorem epochs_supersededWrite : ∃ s, (system 0).run (start ()) supersededWrite = some s ∧
      (s.begun = [2, 1] ∧ s.touched = [(1, 7, 0)] ∧ epochOf s.table 7 = 2) ∧
      s.begun.Pairwise (· > ·) ∧ ∀ touch ∈ s.touched, touch.2.2 < touch.1 := by
  refine StepSystem.exists_run_and _ rfl fun s hr _ => ?_
  obtain ⟨hb, ht, -⟩ := epochs_move_forward hr
  exact ⟨hb.1, fun touch ho => (ht touch ho).1⟩

end EpochDb

end ThreeTears
