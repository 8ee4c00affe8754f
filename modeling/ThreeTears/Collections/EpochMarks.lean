import ThreeTears.Collections.ScopeEpochs

/-!
# What the epochs table says

The version row bounds every epoch, and a mark lies between the last committed version and the
latest one begun. A write's mark of a scope stands until a version that is not before it is
committed, and the scope's epoch is at or past it from then on.
-/

namespace ThreeTears

variable {K : Type*} [LinearOrder K]

def latestOf (t : KeyedTable K EpochRow) (whole : K) : Nat :=
  max (epochOf t whole) ((writingOf t whole).getD 0)

structure TableSound (whole : K) (t : KeyedTable K EpochRow) : Prop where
  writing : ∀ version ∈ writingOf t whole, epochOf t whole < version
  epochs : ∀ k, epochOf t k ≤ epochOf t whole
  pending : ∀ k, k ≠ whole → ∀ mark ∈ pendingOf t k,
    epochOf t whole < mark ∧ mark ≤ latestOf t whole

/-- The scope's mark for the write stands, or its epoch has moved for it. -/
structure Covers (whole : K) (t : KeyedTable K EpochRow) (touch : Nat × K) : Prop where
  scope : touch.2 ≠ whole
  le : touch.1 ≤ latestOf t whole
  moved : touch.1 ≤ epochOf t whole → touch.1 ≤ epochOf t touch.2
  stands : epochOf t whole < touch.1 → ∃ mark ∈ pendingOf t touch.2, touch.1 ≤ mark

/-- A commit is past its fence and has not moved the scopes yet. -/
structure MidCommit (whole : K) (version : Nat) (t : KeyedTable K EpochRow) : Prop where
  epoch : epochOf t whole = version
  writing : writingOf t whole = none
  epochs : ∀ k, k ≠ whole → epochOf t k < version
  pending : ∀ k, k ≠ whole → ∀ mark ∈ pendingOf t k, mark ≤ version

structure CoversMidCommit (whole : K) (version : Nat) (t : KeyedTable K EpochRow)
    (touch : Nat × K) : Prop where
  scope : touch.2 ≠ whole
  le : touch.1 ≤ version
  covers : touch.1 ≤ epochOf t touch.2 ∨ ∃ mark ∈ pendingOf t touch.2, touch.1 ≤ mark

variable {whole : K} {t t' : KeyedTable K EpochRow} {ver : Nat} {touch : Nat × K}

lemma epochOf_of_get {k k' : K} (h : t'.get k' = t.get k) : epochOf t' k' = epochOf t k := by
  rw [epochOf, epochOf, h]

lemma pendingOf_of_get {k k' : K} (h : t'.get k' = t.get k) : pendingOf t' k' = pendingOf t k := by
  rw [pendingOf, pendingOf, h]

lemma writingOf_of_get (h : t'.get whole = t.get whole) : writingOf t' whole =
    writingOf t whole := by
  rw [writingOf, writingOf, h]

lemma latestOf_of_get (h : t'.get whole = t.get whole) : latestOf t' whole = latestOf t whole := by
  rw [latestOf, latestOf, epochOf_of_get h, writingOf_of_get h]

lemma TableSound.latestOf_eq (h : TableSound whole t) (hwrit : writingOf t whole = some
    ver) : latestOf t whole = ver := by
  rw [latestOf, hwrit]
  exact max_eq_right (le_of_lt (h.writing ver hwrit))

/-! ### `begin` -/

lemma epochOf_beginRow (h : t'.get whole = some (beginRow (t.get whole))) :
    epochOf t' whole = epochOf t whole := by
  rw [epochOf, epochOf, h]
  cases t.get whole <;> rfl

lemma writingOf_beginRow (h : t'.get whole = some (beginRow (t.get whole))) :
    writingOf t' whole = some (latestOf t whole + 1) := by
  rw [writingOf, latestOf, epochOf, writingOf, h]
  cases t.get whole <;> rfl

lemma latestOf_beginRow (h : t'.get whole = some (beginRow (t.get whole))) :
    latestOf t' whole = latestOf t whole + 1 := by
  rw [latestOf, epochOf_beginRow h, writingOf_beginRow h]
  exact max_eq_right (Nat.le_succ_of_le (le_max_left _ _))

section Begin

variable (h : t'.get whole = some (beginRow (t.get whole)))
  (hoth : ∀ k, k ≠ whole → t'.get k = t.get k)

include h hoth

lemma TableSound.begin (hsn : TableSound whole t) : TableSound whole t' where
  writing ver' he := by
    rw [writingOf_beginRow h] at he
    cases he
    rw [epochOf_beginRow h]
    exact Nat.lt_succ_of_le (le_max_left _ _)
  epochs k := by
    rw [epochOf_beginRow h]
    rcases eq_or_ne k whole with rfl | hk
    · rw [epochOf_beginRow h]
    rw [epochOf_of_get (hoth k hk)]
    exact hsn.epochs k
  pending k hk mark hm := by
    rw [pendingOf_of_get (hoth k hk)] at hm
    rw [epochOf_beginRow h, latestOf_beginRow h]
    exact (hsn.pending k hk mark hm).imp_right Nat.le_succ_of_le

lemma Covers.begin (hcov : Covers whole t touch) : Covers whole t' touch where
  scope := hcov.scope
  le := by
    rw [latestOf_beginRow h]
    exact Nat.le_succ_of_le hcov.le
  moved hle := by
    rw [epochOf_beginRow h] at hle
    rw [epochOf_of_get (hoth _ hcov.scope)]
    exact hcov.moved hle
  stands hlt := by
    rw [epochOf_beginRow h] at hlt
    rw [pendingOf_of_get (hoth _ hcov.scope)]
    exact hcov.stands hlt

end Begin

section Mark

variable {scopes : List K} (hscopes : whole ∉ scopes)
  (h : ∀ k, t'.get k = if k ∈ scopes then some (pendingRow ver (t.get k)) else t.get k)

include h

lemma epochOf_pendingRow (k : K) : epochOf t' k = epochOf t k := by
  rw [epochOf, epochOf, h]
  split_ifs
  · cases t.get k <;> rfl
  · rfl

lemma pendingOf_pendingRow (k : K) : pendingOf t' k =
    if k ∈ scopes then some (max ((pendingOf t k).getD 0) ver) else pendingOf t k := by
  rw [pendingOf, pendingOf, h]
  split_ifs
  · cases t.get k with
    | none => simp [pendingRow]
    | some row => rfl
  · rfl

variable {k : K}

lemma exists_pendingOf_pendingRow {w : Nat} (hw : ∃ mark ∈ pendingOf t k, w ≤ mark) :
    ∃ mark ∈ pendingOf t' k, w ≤ mark := by
  rw [pendingOf_pendingRow h]
  split_ifs
  · obtain ⟨mark, hm, hle⟩ := hw
    refine ⟨_, rfl, hle.trans ?_⟩
    rw [show pendingOf t k = some mark from hm]
    exact le_max_left _ _
  · exact hw

lemma le_of_mem_pendingOf {bound : Nat} (he : ver ≤ bound)
    (hb : ∀ mark ∈ pendingOf t k, mark ≤ bound) : ∀ mark ∈ pendingOf t' k, mark ≤ bound := by
  intro mark hm
  rw [pendingOf_pendingRow h] at hm
  split_ifs at hm
  · cases hm
    refine max_le ?_ he
    cases hpe : pendingOf t k with
    | none => exact Nat.zero_le _
    | some mark => exact hb mark hpe
  · exact hb mark hm

include hscopes

lemma get_whole_pendingRow : t'.get whole = t.get whole := by rw [h, if_neg hscopes]

lemma TableSound.mark (hsn : TableSound whole t) (hwrit : writingOf t whole = some ver) :
    TableSound whole t' where
  writing ver' he := by
    rw [writingOf_of_get (get_whole_pendingRow hscopes h)] at he
    rw [epochOf_pendingRow h]
    exact hsn.writing ver' he
  epochs k := by
    rw [epochOf_pendingRow h, epochOf_pendingRow h]
    exact hsn.epochs k
  pending k hk mark hm := by
    rw [epochOf_pendingRow h, latestOf_of_get (get_whole_pendingRow hscopes h)]
    have hlt := hsn.writing ver hwrit
    constructor
    · rw [pendingOf_pendingRow h] at hm
      split_ifs at hm
      · cases hm
        exact lt_of_lt_of_le hlt (le_max_right _ _)
      · exact (hsn.pending k hk mark hm).1
    exact le_of_mem_pendingOf h (hsn.latestOf_eq hwrit).ge
      (fun mark hm => (hsn.pending k hk mark hm).2) mark hm

lemma Covers.mark (hcov : Covers whole t touch) : Covers whole t' touch where
  scope := hcov.scope
  le := by
    rw [latestOf_of_get (get_whole_pendingRow hscopes h)]
    exact hcov.le
  moved hle := by
    rw [epochOf_pendingRow h] at hle ⊢
    exact hcov.moved hle
  stands hlt := by
    rw [epochOf_pendingRow h] at hlt
    exact exists_pendingOf_pendingRow h (hcov.stands hlt)

lemma covers_mark (hsn : TableSound whole t) (hwrit : writingOf t whole = some ver)
    (hk : k ∈ scopes) : Covers whole t' (ver, k) where
  scope he := hscopes (he ▸ hk)
  le := by rw [latestOf_of_get (get_whole_pendingRow hscopes h), hsn.latestOf_eq hwrit]
  moved hle := by
    rw [epochOf_pendingRow h] at hle
    exact absurd hle (not_le.2 (hsn.writing ver hwrit))
  stands _ := by
    rw [pendingOf_pendingRow h, if_pos hk]
    exact ⟨_, rfl, le_max_right _ _⟩

lemma MidCommit.mark (hm : MidCommit whole ver t) : MidCommit whole ver t' where
  epoch := (epochOf_pendingRow h whole).trans hm.epoch
  writing := (writingOf_of_get (get_whole_pendingRow hscopes h)).trans hm.writing
  epochs k hk := by
    rw [epochOf_pendingRow h]
    exact hm.epochs k hk
  pending k hk := le_of_mem_pendingOf h le_rfl (hm.pending k hk)

omit hscopes in
lemma CoversMidCommit.mark (hcov : CoversMidCommit whole ver t touch) :
    CoversMidCommit whole ver t' touch where
  __ := hcov
  covers := by
    rw [epochOf_pendingRow h]
    exact hcov.covers.imp_right (exists_pendingOf_pendingRow h)

lemma coversMidCommit_mark (hk : k ∈ scopes) : CoversMidCommit whole ver t' (ver, k) where
  scope he := hscopes (he ▸ hk)
  le := le_rfl
  covers := by
    rw [pendingOf_pendingRow h, if_pos hk]
    exact .inr ⟨_, rfl, le_max_right _ _⟩

end Mark

/-! ### The fence of `commit` -/

section Close

variable {row : EpochRow} (hrow : t.get whole = some row) (hwrit : row.writing = some ver)
  (h : t'.get whole = some (closedRow ver row))
  (hoth : ∀ k, k ≠ whole → t'.get k = t.get k)

include hrow hwrit

lemma writingOf_of_row : writingOf t whole = some ver := by simp [writingOf, hrow, hwrit]

include h hoth

lemma TableSound.close (hsn : TableSound whole t) : MidCommit whole ver t' where
  epoch := by simp [epochOf, h, closedRow]
  writing := by simp [writingOf, h, closedRow]
  epochs k hk := by
    rw [epochOf_of_get (hoth k hk)]
    exact lt_of_le_of_lt (hsn.epochs k) (hsn.writing ver (writingOf_of_row hrow hwrit))
  pending k hk mark hm := by
    rw [pendingOf_of_get (hoth k hk)] at hm
    rw [← hsn.latestOf_eq (writingOf_of_row hrow hwrit)]
    exact (hsn.pending k hk mark hm).2

omit h in
lemma Covers.close (hsn : TableSound whole t) (hcov : Covers whole t touch) :
    CoversMidCommit whole ver t' touch where
  scope := hcov.scope
  le := by
    rw [← hsn.latestOf_eq (writingOf_of_row hrow hwrit)]
    exact hcov.le
  covers := by
    rw [epochOf_of_get (hoth _ hcov.scope), pendingOf_of_get (hoth _ hcov.scope)]
    rcases le_or_gt touch.1 (epochOf t whole) with hle | hlt
    · exact .inl (hcov.moved hle)
    · exact .inr (hcov.stands hlt)

end Close

/-! ### Moving the scopes -/

section Move

variable (h : ∀ k, t'.get k = ((EpochDb.moved whole t ver).get k).or (t.get k))

include h

lemma get_whole_moved : t'.get whole = t.get whole := by
  rw [h]
  simp [EpochDb.moved]

lemma get_moved (hk : k ≠ whole) : t'.get k = (t.get k).map fun row =>
    if row.pending.isSome then movedRow ver row else row := by
  rw [h]
  cases hrow : t.get k with
  | none => simp [EpochDb.moved, hrow]
  | some row =>
    by_cases he : row.pending.isSome
    · simp [EpochDb.moved, hrow, hk, he]
    · simp [EpochDb.moved, hrow, he]

lemma epochOf_moved (hk : k ≠ whole) :
    epochOf t' k = if (pendingOf t k).isSome then ver else epochOf t k := by
  rw [epochOf, pendingOf, epochOf, get_moved h hk]
  cases t.get k with
  | none => rfl
  | some row =>
    by_cases he : row.pending.isSome
    · simp [he, movedRow]
    · simp [he]

lemma pendingOf_moved (hk : k ≠ whole) : pendingOf t' k = none := by
  rw [pendingOf, get_moved h hk]
  cases t.get k with
  | none => rfl
  | some row =>
    by_cases he : row.pending.isSome
    · simp [he, movedRow]
    simp only [Option.map_some, he, Bool.false_eq_true, if_false, Option.bind_some]
    exact Option.not_isSome_iff_eq_none.1 he

lemma MidCommit.move (hm : MidCommit whole ver t) : TableSound whole t' where
  writing ver' he := by
    rw [writingOf_of_get (get_whole_moved h), hm.writing] at he
    cases he
  epochs k := by
    rcases eq_or_ne k whole with rfl | hk
    · exact le_rfl
    rw [epochOf_moved h hk, epochOf_of_get (get_whole_moved h), hm.epoch]
    split_ifs
    · exact le_rfl
    · exact le_of_lt (hm.epochs k hk)
  pending k hk mark hma := by
    rw [pendingOf_moved h hk] at hma
    cases hma

lemma CoversMidCommit.move (hm : MidCommit whole ver t)
    (hcov : CoversMidCommit whole ver t touch) : Covers whole t' touch where
  scope := hcov.scope
  le := by
    rw [latestOf_of_get (get_whole_moved h), latestOf, hm.epoch]
    exact hcov.le.trans (le_max_left _ _)
  moved _ := by
    rw [epochOf_moved h hcov.scope]
    split_ifs with he
    · exact hcov.le
    apply hcov.covers.resolve_right
    rintro ⟨mark, hma, -⟩
    rw [show pendingOf t touch.2 = some mark from hma] at he
    exact he rfl
  stands hlt := by
    rw [epochOf_of_get (get_whole_moved h), hm.epoch] at hlt
    exact absurd hcov.le (not_le.2 hlt)

end Move

end ThreeTears
