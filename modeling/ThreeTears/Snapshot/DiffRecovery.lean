import ThreeTears.Lib.StepSystem
import ThreeTears.Lib.RowGroups
import Mathlib.Data.List.Dedup

/-!
# Recovery from the diff

A copy of a table's rows of a scope at one epoch is brought forward from what L3 counts of each
group: its rows, those stamped after the epoch, and its newest stamp. A group with stamped rows, or
of another count, is read from L3 whole; a group that L3 has no more is dropped. Deleted rows leave
no stamp, so it is the counts that show them.
-/

namespace ThreeTears

open List

variable {R V : Type*}

/-- A table as a diff reads it. A group is a value of the group column, `none` for a NULL; without a
group column the table is one group. -/
structure DiffTable (R V : Type*) where
  /-- the version column: the version of the write that last changed a row -/
  version : Option (R → Option Nat)
  group : Option (R → Option V)
  /-- the rows of the NULL group have another key column to be paged by -/
  pagedApart : Bool
  retained : Bool
  partialGroups : Bool
  retained_of_partial : partialGroups → retained

inductive DiffRefusal (V : Type*)
  | noVersionColumn
  | notAsked (why : String)
  | rowsWent (value : Option V)
  | groupsWent (gone : Nat)
  | unpaged
  | miscounted (total made : Nat)
  deriving DecidableEq

structure GroupCount (V : Type*) where
  value : Option V
  rows : Nat
  stamped : Nat
  newest : Option Nat

/-- The groups that diffs read: the count and newest stamp each had, and how many diffs in a row
read it so. -/
abbrev GroupReads (V : Type*) := Option V → Option ((Nat × Option Nat) × Nat)

/-- What a diff is to do: `total` is L3's rows of the groups wanted. -/
structure Judged (V : Type*) where
  reread : List (Option V) := []
  drop : List (Option V) := []
  total : Nat := 0
  passed : GroupReads V := fun _ => none

structure Diffed (R V : Type*) where
  rows : List R
  read : Nat
  passed : GroupReads V

def rereads : Nat := 2

/-- `_breaks`: whether a group is not read, since the diffs just before read it with L3 unchanged.
-/
def breaks [DecidableEq V] (last passed : GroupReads V) (value : Option V)
    (state : Nat × Option Nat) : Bool × GroupReads V :=
  match passed value with
  | some p => (rereads < p.2, passed)
  | none =>
    let times := match last value with
      | some l => if l.1 = state then l.2 + 1 else 1
      | none => 1
    (rereads < times, Function.update passed value (some (state, times)))

namespace DiffTable

variable (t : DiffTable R V)

def groupOf (r : R) : Option V := t.group.elim none fun column => column r

/-- The row was written by a write after `heldAt`. -/
def Stamped (version : R → Option Nat) (heldAt : Nat) (r : R) : Bool := (version r).any (heldAt < ·)

variable [DecidableEq V]

def rowsOf (rows : List R) (value : Option V) : List R := rows.filter (t.groupOf · = value)

/-- The groups that the count answers: one where there is no group column, also without a row. -/
def groups (rows : List R) : List (Option V) :=
  match t.group with
  | none => [none]
  | some column => (rows.map column).dedup

def countOf (version : R → Option Nat) (heldAt : Nat) (l3 : List R) (value : Option V) :
    GroupCount V where
  value := value
  rows := (t.rowsOf l3 value).length
  stamped := ((t.rowsOf l3 value).filter (Stamped version heldAt)).length
  newest := ((t.rowsOf l3 value).filterMap version).max?

def groupCounts (version : R → Option Nat) (heldAt : Nat) (l3 : List R) : List (GroupCount V) :=
  (t.groups l3).map (t.countOf version heldAt l3)

/-- `_HeldGroups.counts`: a group that the copy has no row of has no count. -/
def heldCount (held : List R) (value : Option V) : Option Nat :=
  if t.rowsOf held value = [] then none else some (t.rowsOf held value).length

/-- Whether a group is read. `part` says that the copy keeps only some of the groups, and which is
not known. -/
def Differs (part : Bool) (had : Option Nat) (g : GroupCount V) : Prop :=
  g.stamped ≠ 0 ∨ (had = none ∧ ¬part ∧ g.rows ≠ 0) ∨ (∃ n ∈ had, n ≠ g.rows ∧ ¬part)
deriving Decidable

def Wanted (wanted : Option (List (Option V))) (value : Option V) : Prop :=
  ∀ named ∈ wanted, value ∈ named

instance (wanted : Option (List (Option V))) (value : Option V) : Decidable (Wanted wanted value) :=
  inferInstanceAs (Decidable (∀ named ∈ wanted, value ∈ named))

/-- The loop of `_diffed_table` over the groups that L3 counts. -/
def judgeGroup (part : Bool) (wanted : Option (List (Option V))) (held : List R)
    (last : GroupReads V) (j : Judged V) (g : GroupCount V) : Except (DiffRefusal V) (Judged V) :=
  if ¬Wanted wanted g.value then .ok { j with drop := j.drop ++ [g.value] }
  else if Differs part (t.heldCount held g.value) g then
    let (stop, passed) := breaks last j.passed g.value (g.rows, g.newest)
    if stop then .ok { j with total := j.total + g.rows, passed := passed }
    else .ok
      { reread := j.reread ++ [g.value], drop := j.drop ++ [g.value], total := j.total + g.rows,
        passed := passed }
  else if part ∧ ∃ n ∈ t.heldCount held g.value, g.rows < n then .error (.rowsWent g.value)
  else .ok { j with total := j.total + g.rows }

def judged (version : R → Option Nat) (heldAt : Nat) (held l3 : List R)
    (wanted : Option (List (Option V))) (last : GroupReads V) : Except (DiffRefusal V) (Judged V) :=
  (t.groupCounts version heldAt l3).foldlM
    (t.judgeGroup (t.retained && wanted.isNone) wanted held last) {}

def gone (held l3 : List R) : List (Option V) := (held.map t.groupOf).dedup.filter (· ∉ t.groups l3)

/-- `_read_group`: a group's rows from L3. -/
def readGroup (l3 : List R) (value : Option V) : Except (DiffRefusal V) (List R) :=
  if t.group.isSome ∧ value = none ∧ ¬t.pagedApart then .error .unpaged
  else .ok (t.rowsOf l3 value)

/-- `_diffed_table` once every group is judged: what the copy keeps, and what is read in place of
the rest. -/
def composed (held l3 : List R) (part : Bool) (j : Judged V) :
    Except (DiffRefusal V) (Diffed R V) :=
  let gone := t.gone held l3
  if part ∧ gone ≠ [] then .error (.groupsWent gone.length)
  else match j.reread.mapM (t.readGroup l3) with
    | .error why => .error why
    | .ok pages =>
      let drop := j.drop ++ gone
      let rows := if j.reread ≠ [] ∨ drop ≠ [] then held.filter (t.groupOf · ∉ drop) ++
        pages.flatten
        else held
      if ¬t.retained ∧ rows.length ≠ j.total then .error (.miscounted j.total rows.length)
      else .ok ⟨rows, pages.flatten.length, j.passed⟩

/-- `_diffed_table`: a table's rows of a scope in L3, from the rows held at `heldAt`. `asked` is the
partition values asked for, `partly` what `_partly_diffed` answers. -/
def diffedTable (heldAt : Nat) (held l3 : List R)
    (asked : Except String (Option (List (Option V)))) (last : GroupReads V)
    (partly : Except (DiffRefusal V) (Diffed R V)) : Except (DiffRefusal V) (Diffed R V) :=
  match t.version, asked with
  | none, _ => .error .noVersionColumn
  | some _, .error why => .error (.notAsked why)
  | some version, .ok wanted =>
    if t.partialGroups ∧ wanted.isSome ∧ t.group.isSome then partly
    else match t.judged version heldAt held l3 wanted last with
      | .error why => .error why
      | .ok j => t.composed held l3 (t.retained && wanted.isNone) j

variable {t} {version : R → Option Nat} {heldAt : Nat} {held l3 : List R}
  {wanted : Option (List (Option V))} {last : GroupReads V}

lemma mem_groups_of_mem {r : R} {rows : List R} (h : r ∈ rows) : t.groupOf r ∈ t.groups rows := by
  unfold groups groupOf
  cases t.group with
  | none => simp
  | some col => simpa using ⟨r, h, rfl⟩

lemma nodup_groups (rows : List R) : (t.groups rows).Nodup := by
  unfold groups
  cases t.group with
  | none => simp
  | some col => exact nodup_dedup _

variable {v : Option V}

lemma rowsOf_eq_nil_of_notMem {rows : List R} (h : v ∉ t.groups rows) : t.rowsOf rows v = [] := by
  refine filter_eq_nil_iff.2 fun r hr hv => h ?_
  rw [← of_decide_eq_true hv]
  exact mem_groups_of_mem hr

lemma breaks_eq_false {passed : GroupReads V} {state : Nat × Option Nat}
    (hpa : passed v = none) (hla : ∀ l ∈ last v, l.1 = state → l.2 < rereads) :
    ∃ time, breaks last passed v state =
      (false, Function.update passed v (some (state, time))) := by
  unfold breaks
  rw [hpa]
  refine ⟨_, Prod.ext ?_ rfl⟩
  cases hl : last v with
  | none => rfl
  | some l =>
    by_cases ht : l.1 = state
    · have hlt := hla l hl ht
      simp [ht]
      omega
    · simp [ht, rereads]

/-- The groups that are to be read, for a copy of every group. -/
def Reread (t : DiffTable R V) (wanted : Option (List (Option V))) (held : List R)
    (g : GroupCount V) : Prop :=
  Wanted wanted g.value ∧ Differs false (t.heldCount held g.value) g

instance (g : GroupCount V) : Decidable (t.Reread wanted held g) :=
    inferInstanceAs (Decidable (_ ∧ _))

def Unkept (t : DiffTable R V) (wanted : Option (List (Option V))) (held : List R)
    (g : GroupCount V) : Prop :=
  Wanted wanted g.value → t.Reread wanted held g

instance (g : GroupCount V) : Decidable (t.Unkept wanted held g) :=
    inferInstanceAs (Decidable (_ → _))

def taken (t : DiffTable R V) (wanted : Option (List (Option V))) (held : List R) (j : Judged V)
    (g : GroupCount V) (passed : GroupReads V) : Judged V where
  reread := j.reread ++ if t.Reread wanted held g then [g.value] else []
  drop := j.drop ++ if t.Unkept wanted held g then [g.value] else []
  total := j.total + if Wanted wanted g.value then g.rows else 0
  passed := passed

lemma judgeGroup_eq {j : Judged V} {g : GroupCount V} (hpa : j.passed g.value = none)
    (hl : ∀ l ∈ last g.value, l.1 = (g.rows, g.newest) → l.2 < rereads) :
    ∃ passed, (∀ v ≠ g.value, passed v = j.passed v) ∧
      t.judgeGroup false wanted held last j g = .ok (t.taken wanted held j g passed) := by
  obtain ⟨time, hb⟩ := breaks_eq_false hpa hl
  by_cases hw : Wanted wanted g.value
  · by_cases hd : Differs false (t.heldCount held g.value) g
    · refine ⟨Function.update j.passed g.value (some ((g.rows, g.newest), time)),
        fun v hv => Function.update_of_ne hv _ _, ?_⟩
      simp [judgeGroup, taken, Reread, Unkept, hw, hd, hb]
    · exact ⟨_, fun v _ => rfl, by simp [judgeGroup, taken, Reread, Unkept, hw, hd]⟩
  · exact ⟨_, fun v _ => rfl, by simp [judgeGroup, taken, Reread, Unkept, hw]⟩

lemma foldlM_judgeGroup (t : DiffTable R V) (wanted : Option (List (Option V))) (held : List R)
    (gs : List (GroupCount V)) (ho : (gs.map GroupCount.value).Nodup) (j : Judged V)
      (hpa : ∀ g ∈ gs, j.passed g.value = none)
    (hl : ∀ g ∈ gs, ∀ l ∈ last g.value, l.1 = (g.rows, g.newest) → l.2 < rereads) :
    ∃ j', gs.foldlM (t.judgeGroup false wanted held last) j = .ok j' ∧
      j'.reread = j.reread ++ (gs.filter (t.Reread wanted held ·)).map GroupCount.value ∧
      j'.drop = j.drop ++ (gs.filter (t.Unkept wanted held ·)).map GroupCount.value ∧
      j'.total = j.total + ((gs.filter (Wanted wanted ·.value)).map GroupCount.rows).sum := by
  induction gs generalizing j with
  | nil => exact ⟨j, rfl, by simp, by simp, by simp⟩
  | cons g gs ih =>
    obtain ⟨hg, ho⟩ := nodup_cons.1 ho
    obtain ⟨passed, hsa, he⟩ := judgeGroup_eq (hpa g (by simp)) (hl g (by simp))
    have hp' : ∀ g' ∈ gs, (t.taken wanted held j g passed).passed g'.value = none := by
      intro g' hg'
      have hne : g'.value ≠ g.value := fun h => hg (h ▸ mem_map_of_mem hg')
      exact (hsa _ hne).trans (hpa g' (by simp [hg']))
    obtain ⟨j', hfo, hr, hd, ht⟩ :=
      ih ho _ hp' fun g' hg' => hl g' (by simp [hg'])
    refine ⟨j', ?_, ?_, ?_, ?_⟩
    · rw [foldlM_cons, he]
      exact hfo
    · rw [hr, filter_cons]
      by_cases h : t.Reread wanted held g <;> simp [taken, h]
    · rw [hd, filter_cons]
      by_cases h : t.Unkept wanted held g <;> simp [taken, h]
    rw [ht, filter_cons]
    by_cases h : Wanted wanted g.value <;> simp [taken, h, Nat.add_assoc]

lemma judged_eq (held : List R) (wanted : Option (List (Option V))) (hr : t.retained = false)
    (hl : ∀ v, ∀ l ∈ last v, l.1 = ((t.countOf version heldAt l3 v).rows,
      (t.countOf version heldAt l3 v).newest) → l.2 < rereads) :
    ∃ j, t.judged version heldAt held l3 wanted last = .ok j ∧
      j.reread = (t.groups l3).filter (fun v => t.Reread wanted held
        (t.countOf version heldAt l3 v)) ∧
      j.drop = (t.groups l3).filter (fun v => t.Unkept wanted held (t.countOf version heldAt l3
        v)) ∧ j.total = (((t.groups l3).filter (Wanted wanted ·)).map fun v => (t.rowsOf l3
        v).length).sum := by
  have hva : GroupCount.value ∘ t.countOf version heldAt l3 = id := rfl
  have ho : GroupCount.rows ∘ t.countOf version heldAt l3 = fun v =>
    (t.rowsOf l3 v).length := rfl
  obtain ⟨j, hfo, he, hd, ht⟩ := t.foldlM_judgeGroup wanted held
    (t.groupCounts version heldAt l3)
    (by rw [groupCounts, List.map_map, hva, List.map_id]; exact nodup_groups l3) {}
    (fun _ _ => rfl) fun g hg => by
      obtain ⟨v, -, rfl⟩ := List.mem_map.1 hg
      exact hl v
  refine ⟨j, by simpa [judged, hr] using hfo, ?_, ?_, ?_⟩
  · rw [he, groupCounts, filter_map, List.map_map, hva, List.map_id]
    rfl
  · rw [hd, groupCounts, filter_map, List.map_map, hva, List.map_id]
    rfl
  rw [ht, groupCounts, filter_map, List.map_map, ho]
  exact Nat.zero_add _

lemma mapM_readGroup (t : DiffTable R V) (l3 : List R) (vs : List (Option V)) :
    vs.mapM (t.readGroup l3) = .ok (vs.map (t.rowsOf l3)) ∨
      vs.mapM (t.readGroup l3) = .error .unpaged ∧ none ∈ vs := by
  induction vs with
  | nil => exact .inl rfl
  | cons v vs ih =>
    rw [mapM_cons]
    by_cases h : t.group.isSome ∧ v = none ∧ ¬t.pagedApart
    · refine .inr ⟨?_, by simp [h.2.1]⟩
      rw [readGroup, if_pos h]
      rfl
    rw [readGroup, if_neg h]
    obtain ih | ⟨ih, hnone⟩ := ih
    · exact .inl (by rw [ih]; rfl)
    · exact .inr ⟨by rw [ih]; rfl, by simp [hnone]⟩

lemma rowsOf_perm_of_not_differs (hold : (l3.filter (!Stamped version heldAt ·)).Subperm held)
    (h : ¬Differs false (t.heldCount held v) (t.countOf version heldAt l3 v)) :
    (t.rowsOf held v).Perm (t.rowsOf l3 v) := by
  simp only [Differs, countOf, not_or, not_and, not_exists] at h
  obtain ⟨ht, hnone, hc⟩ := h
  refine group_perm_of_length hold (fun r hr hv => ?_) ?_
  · by_contra hm
    have hmem : r ∈ (t.rowsOf l3 v).filter (Stamped version heldAt) := by
      simpa [rowsOf, hr, hv] using hm
    exact ht (Nat.ne_of_gt (length_pos_of_mem hmem))
  by_cases hheld : t.rowsOf held v = []
  · have hl3 := hnone (by simp [heldCount, hheld]) (by simp)
    rw [show held.filter (t.groupOf · = v) = [] from hheld]
    exact (not_not.1 hl3).symm
  have hn := hc (t.rowsOf held v).length (by simp [heldCount, hheld])
  by_contra he
  exact hn he (by simp)

lemma not_perm_of_differs (hheld : ∀ r ∈ held, Stamped version heldAt r = false)
    (h : Differs false (t.heldCount held v) (t.countOf version heldAt l3 v)) :
    ¬(t.rowsOf held v).Perm (t.rowsOf l3 v) := by
  intro he
  obtain ht | ⟨hnone, -, ho⟩ | ⟨n, hn, hne, -⟩ := h
  · obtain ⟨r, hr⟩ := exists_mem_of_length_pos (Nat.pos_of_ne_zero ht)
    obtain ⟨hr, ht⟩ := mem_filter.1 hr
    have hr := (mem_filter.1 (he.mem_iff.2 hr)).1
    cases (hheld r hr).symm.trans ht
  · refine ho (he.length_eq.symm.trans ?_)
    unfold heldCount at hnone
    split_ifs at hnone with hi
    rw [hi, length_nil]
  unfold heldCount at hn
  split_ifs at hn with hi <;> cases hn
  · exact hne he.length_eq

lemma composed_eq (t : DiffTable R V) (held l3 : List R) (j : Judged V) {part : Bool}
    (hpa : part = false) (hc : (held.filter (t.groupOf · ∉ j.drop ++ t.gone held l3) ++
      (j.reread.map (t.rowsOf l3)).flatten).length = j.total) :
    t.composed held l3 part j = .error .unpaged ∧ none ∈ j.reread ∨
      t.composed held l3 part j = .ok ⟨held.filter (t.groupOf · ∉ j.drop ++ t.gone held l3) ++
        (j.reread.map (t.rowsOf l3)).flatten, (j.reread.map (t.rowsOf l3)).flatten.length,
          j.passed⟩ := by
  obtain hread | ⟨hread, hnone⟩ := t.mapM_readGroup l3 j.reread
  · right
    have ho : (if j.reread ≠ [] ∨ j.drop ++ t.gone held l3 ≠ [] then
        held.filter (t.groupOf · ∉ j.drop ++ t.gone held l3) ++ (j.reread.map (t.rowsOf l3)).flatten
        else held) = held.filter (t.groupOf · ∉ j.drop ++ t.gone held l3) ++
          (j.reread.map (t.rowsOf l3)).flatten := by
      split_ifs with h
      · rfl
      obtain ⟨hr, hd⟩ := not_or.1 h
      simp [not_not.1 hr, not_not.1 hd]
    have hg : ¬(part = true ∧ t.gone held l3 ≠ []) := by simp [hpa]
    have hsa : ¬(¬t.retained = true ∧ (held.filter (t.groupOf · ∉ j.drop ++ t.gone held l3) ++
      (j.reread.map (t.rowsOf l3)).flatten).length ≠ j.total) := fun h => h.2 hc
    simp only [composed, hread, ho, if_neg hg, if_neg hsa]
  · exact .inl ⟨by simp [composed, hread, hpa], hnone⟩

section Exact

variable [DecidableEq R]

lemma length_filter_wanted : (l3.filter fun r => Wanted wanted (t.groupOf r)).length =
      (((t.groups l3).filter (Wanted wanted ·)).map fun v => (t.rowsOf l3 v).length).sum := by
  have hw := flatten_groups_perm (f := t.groupOf) (p := fun v => decide (Wanted wanted v)) l3
    ((nodup_groups (t := t) l3).filter fun v => Wanted wanted v)
    fun r hr => by simp [mem_groups_of_mem hr]
  rw [← hw.length_eq, length_flatten, List.map_map]
  rfl

lemma composed_rows_perm (t : DiffTable R V) (wanted : Option (List (Option V)))
    (hold : (l3.filter (!Stamped version heldAt ·)).Subperm held) : (held.filter (t.groupOf · ∉
        (t.groups l3).filter (fun v => t.Unkept wanted held (t.countOf version heldAt l3 v)) ++
          t.gone held l3) ++
      (((t.groups l3).filter fun v => t.Reread wanted held (t.countOf version heldAt l3 v)).map
        (t.rowsOf l3)).flatten).Perm (l3.filter fun r => Wanted wanted (t.groupOf r)) := by
  refine replaced_groups_perm (f := t.groupOf) (k := fun v => decide (v ∉ _))
    (w := fun v => decide (Wanted wanted v)) ((nodup_groups l3).filter _) (fun v hv => ?_)
    (fun v hv ho hw => ?_) fun v hv => ?_
  · obtain ⟨hmem, he⟩ := mem_filter.1 hv
    have he := of_decide_eq_true he
    refine ⟨decide_eq_false (not_not.2 (mem_append_left _ ?_)), decide_eq_true he.1⟩
    exact mem_filter.2 ⟨hmem, decide_eq_true fun _ => he⟩
  · obtain hv | hv := mem_append.1 (not_not.1 (of_decide_eq_false hv))
    · obtain ⟨hmem, hu⟩ := mem_filter.1 hv
      have he := of_decide_eq_true hu (of_decide_eq_true hw)
      exact absurd (mem_filter.2 ⟨hmem, decide_eq_true he⟩) ho
    · exact rowsOf_eq_nil_of_notMem (of_decide_eq_true (mem_filter.1 hv).2)
  obtain ⟨hk, hg⟩ := not_or.1 (mt mem_append.2 (of_decide_eq_true hv))
  by_cases hmem : v ∈ t.groups l3
  · -- the group is counted and its count agrees
    have hk : ¬t.Unkept wanted held (t.countOf version heldAt l3 v) := fun h =>
      hk (mem_filter.2 ⟨hmem, decide_eq_true h⟩)
    obtain ⟨hw, hsa⟩ := Classical.not_imp.1 hk
    exact ⟨rowsOf_perm_of_not_differs hold fun hd => hsa ⟨hw, hd⟩,
      fun ho => absurd (decide_eq_true hw) ho⟩
  have hheld : t.rowsOf held v = [] := by
    refine filter_eq_nil_iff.2 fun r hr hrv => hg (mem_filter.2 ⟨?_, ?_⟩)
    · exact mem_dedup.2 (List.mem_map.2 ⟨r, hr, of_decide_eq_true hrv⟩)
    · exact decide_eq_true hmem
  have hl3 := rowsOf_eq_nil_of_notMem hmem
  exact ⟨.of_eq (hheld.trans hl3.symm), fun _ => hl3⟩

end Exact

end DiffTable

inductive RowWrite (R : Type*)
  | insert (r : R)
  | update (r r' : R)
  | delete (r : R)

namespace RowWrite

variable [DecidableEq R] {stamped : R → Bool}

def step (stamped : R → Bool) (rows : List R) : RowWrite R → Option (List R)
  | .insert r => if stamped r then some (r :: rows) else none
  | .update r r' => if r ∈ rows ∧ stamped r' then some (r' :: rows.erase r) else none
  | .delete r => if r ∈ rows then some (rows.erase r) else none

def system (stamped : R → Bool) : StepSystem (List R) (RowWrite R) := ⟨step stamped⟩

lemma subperm_of_step {rows rows' held : List R} {w : RowWrite R}
    (h : (rows.filter (!stamped ·)).Subperm held) (ht : step stamped rows w = some rows') :
    (rows'.filter (!stamped ·)).Subperm held := by
  have he : ∀ r, ((rows.erase r).filter (!stamped ·)).Subperm held := fun r =>
    (erase_sublist.filter _).subperm.trans h
  cases w with (simp only [step] at ht; split_ifs at ht with hr; cases ht)
  | insert r => simpa [hr] using h
  | update r r' => simpa [hr.2] using he r
  | delete r => exact he r

lemma subperm_of_run {rows rows' : List R} {ws : List (RowWrite R)}
    (hr : (system stamped).run rows ws = some rows') : (rows'.filter (!stamped ·)).Subperm rows :=
  StepSystem.run_invariant _ (I := fun rows' => (rows'.filter (!stamped ·)).Subperm rows)
    (fun _ _ _ h ht => subperm_of_step h ht) filter_sublist.subperm hr

end RowWrite

namespace DiffTable

variable [DecidableEq R] [DecidableEq V]

/-- A diff from a copy at `heldAt` makes L3's rows of the groups wanted, unless the rows of the NULL
group cannot be paged, and reads only groups whose rows are not those of the copy. -/
theorem diffedTable_exact (t : DiffTable R V) {version : R → Option Nat} {heldAt : Nat}
    {before after held l3 : List R} {writes : List (RowWrite R)}
    (wanted : Option (List (Option V))) (last : GroupReads V)
      (partly : Except (DiffRefusal V) (Diffed R V))
    (hversion : t.version = some version) (hretained : t.retained = false)
    (hbefore : ∀ r ∈ before, ∀ e ∈ version r, e ≤ heldAt) (hheld : held.Perm before)
    (hwrites : (RowWrite.system (Stamped version heldAt)).run before writes = some after)
    (hl3 : l3.Perm after) (hlast : ∀ v, ∀ l ∈ last v, l.1 = ((t.countOf version heldAt l3 v).rows,
      (t.countOf version heldAt l3 v).newest) → l.2 < rereads) :
    ∃ j, t.judged version heldAt held l3 wanted last = .ok j ∧
      (∀ v ∈ j.reread, ¬(t.rowsOf held v).Perm (t.rowsOf l3 v)) ∧
      (∀ d, t.diffedTable heldAt held l3 (.ok wanted) last partly = .ok d →
        d.rows.Perm (l3.filter fun r => Wanted wanted (t.groupOf r))) ∧
      ∀ why, t.diffedTable heldAt held l3 (.ok wanted) last partly = .error why →
        why = .unpaged ∧ none ∈ j.reread := by
  have hold : (l3.filter (!Stamped version heldAt ·)).Subperm held :=
    (hl3.filter _).subperm.trans ((RowWrite.subperm_of_run hwrites).trans hheld.symm.subperm)
  have hu : ∀ r ∈ held, Stamped version heldAt r = false := by
    intro r hr
    have hle := hbefore r (hheld.mem_iff.1 hr)
    cases hv : version r with
    | none => simp [Stamped, hv]
    | some e => simpa [Stamped, hv] using hle e hv
  obtain ⟨j, hju, hre, hdr, ht⟩ := judged_eq held wanted hretained hlast
  have hpa : t.partialGroups = false := by
    by_contra h
    cases hretained.symm.trans (t.retained_of_partial (by simpa using h))
  refine ⟨j, hju, fun v hv => ?_, ?_⟩
  · rw [hre] at hv
    exact not_perm_of_differs hu (of_decide_eq_true (mem_filter.1 hv).2).2
  have ho := t.composed_rows_perm wanted hold
  rw [← hre, ← hdr] at ho
  have hc := ho.length_eq.trans (length_filter_wanted.trans ht.symm)
  have hd : t.diffedTable heldAt held l3 (.ok wanted) last partly =
      t.composed held l3 (t.retained && wanted.isNone) j := by
    simp [diffedTable, hversion, hpa, hju]
  have hpr : (t.retained && wanted.isNone) = false := by simp [hretained]
  rw [hd]
  obtain ⟨he, hnone⟩ | he := composed_eq t held l3 j hpr hc
  · rw [he]
    refine ⟨by rintro d ⟨⟩, ?_⟩
    rintro why ⟨⟩
    exact ⟨rfl, hnone⟩
  rw [he]
  refine ⟨?_, by rintro why ⟨⟩⟩
  rintro d ⟨⟩
  exact ho

def stampedRows : DiffTable (Nat × Option Nat × Option Nat) Nat :=
  ⟨some (·.2.2), some (·.2.1), true, false, false, by simp⟩

def copied : List (Nat × Option Nat × Option Nat) :=
  [(1, some 7, some 1), (2, some 7, none), (3, none, some 2), (4, some 8, some 1),
    (5, some 9, some 1)]

def movedRow : List (RowWrite (Nat × Option Nat × Option Nat)) :=
  [.delete (2, some 7, none), .update (4, some 8, some 1) (4, none, some 3)]

theorem diffedTable_exact_movedRow :
    ∃ l3, (RowWrite.system (Stamped (·.2.2) 2)).run copied movedRow = some l3 ∧
      (stampedRows.diffedTable 2 copied l3 (.ok none) (fun _ => none) (.error .unpaged)).map
        Diffed.read = .ok 3 ∧
      ∃ j, stampedRows.judged (·.2.2) 2 copied l3 none (fun _ => none) = .ok j ∧
        (∀ v ∈ j.reread, ¬(stampedRows.rowsOf copied v).Perm (stampedRows.rowsOf l3 v)) ∧
        (∀ d, stampedRows.diffedTable 2 copied l3 (.ok none) (fun _ => none) (.error .unpaged) =
          .ok d → d.rows.Perm (l3.filter fun r => Wanted none (stampedRows.groupOf r))) ∧
        ∀ why, stampedRows.diffedTable 2 copied l3 (.ok none) (fun _ => none) (.error .unpaged) =
          .error why → why = .unpaged ∧ none ∈ j.reread := by
  obtain ⟨l3, hr, hread⟩ : ∃ l3, (RowWrite.system (Stamped (·.2.2) 2)).run copied movedRow =
    some l3 ∧
      ((stampedRows.diffedTable 2 copied l3 (.ok none) (fun _ => none) (.error .unpaged)).map
        Diffed.read).toOption = some 3 := StepSystem.exists_run_of_any _ rfl
  refine ⟨l3, hr, ?_, diffedTable_exact stampedRows none (fun _ => none) (.error .unpaged) rfl rfl
    (by decide) (.refl _) hr (.refl _) (by rintro _ _ ⟨⟩)⟩
  cases hr
  rfl

end DiffTable

end ThreeTears
