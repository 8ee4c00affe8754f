import ThreeTears.Lib.KeyedTable

/-!
# Reading an L3 table whole

`copy_table` fingerprints a table before and after it reads it a page at a time, and replaces an
L1's table with the rows once the fingerprints agree and the rows number the count. Each statement
sees what is committed when it runs, so the pages may be of different states.
-/

namespace ThreeTears

variable {R V δ : Type*}

structure KeyFingerprint (δ : Type*) where
  rowCount : Nat
  digest : δ
  deriving DecidableEq

/-- The rows a page keeps, and the digests of a table's rows and of its keys. -/
structure CopyReader (R V δ : Type*) where
  pageSize : Nat
  pageSize_pos : 0 < pageSize
  digest : List (R × V) → δ
  keyDigest : List R → δ

inductive CopyFailure (δ : Type*)
  | changed (before after : KeyFingerprint δ)
  | miscounted (read count : Nat)
  | heldCount (held count : Nat)
  | heldKeys

/-- Where `copy_table` stands. -/
inductive CopyPos (R V δ : Type*)
  | counting
  | paging (before : KeyFingerprint δ) (cursor : Option R) (rows : List (R × V))
  | recounting (before : KeyFingerprint δ) (rows : List (R × V))
  | deciding (before after : KeyFingerprint δ) (rows : List (R × V))

/-- What comes of a statement's answer: `copy_table` goes on, or it ends, with the table it put into
the L1, if any. -/
inductive CopyStep (R V δ : Type*) [LinearOrder R]
  | reading (pos : CopyPos R V δ)
  | ended (held : Option (KeyedTable R V)) (answer : Except (CopyFailure δ) (KeyFingerprint δ))

namespace CopyReader

variable [LinearOrder R] [DecidableEq δ] (c : CopyReader R V δ)

def l3Fingerprint (t : KeyedTable R V) : KeyFingerprint δ := ⟨t.rows.length, c.digest t.rows⟩

def keyFingerprint (keys : List R) : KeyFingerprint δ := ⟨keys.length, c.keyDigest keys⟩

def heldDiffers (held : KeyedTable R V) (rows : List (R × V)) (count : Nat) :
    Option (CopyFailure δ) :=
  let read := c.keyFingerprint (rows.map Prod.fst)
  let stored := c.keyFingerprint (held.rows.map Prod.fst)
  if stored.rowCount ≠ count then some (.heldCount stored.rowCount count)
  else if stored ≠ read then some .heldKeys
  else none

def refusal (before after : KeyFingerprint δ) (rows : List (R × V)) : Option (CopyFailure δ) :=
  if after ≠ before then some (.changed before after)
  else if rows.length ≠ before.rowCount then some (.miscounted rows.length before.rowCount)
  else none

def verdict (before after : KeyFingerprint δ) (rows : List (R × V)) : CopyStep R V δ :=
  match refusal before after rows with
  | some failure => .ended none (.error failure)
  | none =>
    let held := .ofRows rows
    match c.heldDiffers held rows before.rowCount with
    | some failure => .ended (some held) (.error failure)
    | none => .ended (some held) (.ok before)

def next (t : KeyedTable R V) : CopyPos R V δ → CopyStep R V δ
  | .counting => .reading (.paging (c.l3Fingerprint t) none [])
  | .paging before cursor rows =>
    let page := t.page c.pageSize cursor
    match page.2 with
    | some last => .reading (.paging before (some last) (rows ++ page.1))
    | none => .reading (.recounting before (rows ++ page.1))
  | .recounting before rows => .reading (.deciding before (c.l3Fingerprint t) rows)
  | .deciding before after rows => c.verdict before after rows

end CopyReader

variable [LinearOrder R]

/-- The rows read are in the order of their keys, up to the last page's last. -/
def CopyPos.Ordered : CopyPos R V δ → Prop
  | .counting => True
  | .paging _ cursor rows => (rows.Pairwise fun a b => a.1 < b.1) ∧
      ∀ e ∈ rows, ¬ KeyedTable.Past cursor e.1
  | .recounting _ rows => rows.Pairwise fun a b => a.1 < b.1
  | .deciding _ _ rows => rows.Pairwise fun a b => a.1 < b.1

/-- What has been read is the table's, up to where the reading stands. -/
def CopyPos.Matches (t : KeyedTable R V) : CopyPos R V δ → Prop
  | .counting => True
  | .paging _ cursor rows => rows = t.readUpTo cursor
  | .recounting _ rows => rows = t.rows
  | .deciding _ _ rows => rows = t.rows

namespace CopyReader

variable [DecidableEq δ] {c : CopyReader R V δ} {t : KeyedTable R V} {pos pos' : CopyPos R V δ}
  {held : KeyedTable R V} {ans : Except (CopyFailure δ) (KeyFingerprint δ)}

lemma verdict_ne_reading (before after : KeyFingerprint δ) (rows : List (R × V)) :
    c.verdict before after rows ≠ .reading pos := by
  rw [verdict]
  cases refusal before after rows with
  | some => exact nofun
  | none => cases hd : c.heldDiffers (.ofRows rows) rows before.rowCount <;> simp [hd]

variable {rows : List (R × V)}

lemma held_of_verdict {before after : KeyFingerprint δ}
    (h : c.verdict before after rows = .ended (some held) ans) : held = .ofRows rows := by
  rw [verdict] at h
  split at h
  · cases h
  simp only at h
  split at h <;> cases h <;> rfl

lemma ordered_next (h : pos.Ordered) (hnext : c.next t pos = .reading pos') : pos'.Ordered := by
  cases pos with try cases hnext
  | counting => exact ⟨List.Pairwise.nil, nofun⟩
  | paging _ cur rows =>
    have hke := t.fst_page c.pageSize_pos cur
    have hpa : ∀ e ∈ (t.page c.pageSize cur).1, KeyedTable.Past cur e.1 ∧
        ∀ last ∈ (t.page c.pageSize cur).2, e.1 ≤ last := by
      intro e he
      rw [hke] at he
      exact of_decide_eq_true (List.mem_filter.1 he).2
    have ho : (rows ++ (t.page c.pageSize cur).1).Pairwise fun a b => a.1 < b.1 := by
      refine List.pairwise_append.2 ⟨h.1, ?_, fun a ha b hb => ?_⟩
      · rw [hke]
        exact t.sorted.filter _
      · exact KeyedTable.lt_of_past (h.2 a ha) (hpa b hb).1
    simp only [next] at hnext
    cases hl : (t.page c.pageSize cur).2 with (rw [hl] at hnext; cases hnext)
    | some last =>
      refine ⟨ho, fun e he hla => ?_⟩
      rcases List.mem_append.1 he with he | he
      · exact h.2 e he fun k hk => (KeyedTable.past_of_page hl k hk).trans (hla last rfl)
      · exact absurd (hla last rfl) (not_lt.2 ((hpa e he).2 last hl))
    | none => exact ho
  | recounting => exact h
  | deciding before after rows => exact absurd hnext (verdict_ne_reading before after rows)

lemma heldDiffers_ofRows (h : rows.Pairwise fun a b => a.1 < b.1) :
    c.heldDiffers (.ofRows rows) rows rows.length = none := by
  simp [heldDiffers, keyFingerprint, KeyedTable.rows_ofRows h]

omit [LinearOrder R] in
lemma rowCount_of_refusal {before after : KeyFingerprint δ}
    (h : refusal before after rows = none) : rows.length = before.rowCount := by
  simp only [refusal] at h
  split_ifs at h with hh hc
  exact not_not.1 hc

lemma matches_next (h : pos.Matches t) (hnext : c.next t pos = .reading pos') : pos'.Matches t := by
  cases pos with try cases hnext
  | counting => exact (t.readUpTo_none).symm
  | paging _ cur rows =>
    have hr := t.readUpTo_append_page c.pageSize_pos cur
    rw [← show rows = t.readUpTo cur from h] at hr
    simp only [next] at hnext
    cases hl : (t.page c.pageSize cur).2 with
    | some last | none =>
      rw [hl] at hnext hr
      cases hnext
      exact hr
  | recounting => exact h
  | deciding before after rows => exact absurd hnext (verdict_ne_reading before after rows)

lemma held_of_next {t' : KeyedTable R V} (h : pos.Matches t)
    (hnext : c.next t' pos = .ended (some held) ans) : held = t := by
  cases pos with
  | counting | recounting before rows => cases hnext
  | paging =>
    simp only [next] at hnext
    split at hnext <;> cases hnext
  | deciding _ _ rows =>
    rw [held_of_verdict hnext, show rows = t.rows from h, KeyedTable.ofRows_rows]

end CopyReader

end ThreeTears
