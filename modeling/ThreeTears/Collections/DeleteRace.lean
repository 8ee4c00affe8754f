import ThreeTears.Lib.StepSystem
import ThreeTears.Collections.Flush

/-!
# A delete among saves and flushes

One `delete` of a key of a write-behind collection, among saves and flushes. It takes the key's
write out of the buffer and then the row out of L3. A flush that drained the write before persists
its own copy, and a save that started before adds its row after, so either brings the row back.
-/

namespace ThreeTears

open Function

variable {E V ι : Type*}

inductive DeletePc
  | idle
  | begun
  | removed
  | deleted
  | returned
  deriving DecidableEq

/-- The write-behind tier, the flushes, the saves whose row is not yet buffered, the delete. -/
structure DeleteRun (E V ι : Type*) where
  tier : WriteBehind E V
  flushes : ι → FlushPc E V
  saves : ι → Option ((String × E) × V)
  del : DeletePc

inductive DeleteAct (E V ι : Type*)
  | saveBegin (j : ι) (k : String × E) (row : V)
  | saveAdd (j : ι)
  | deleteBegin
  | deleteRemove
  | deleteStore
  | deleteReturn
  | flushBegin (i : ι)
  | flushStep (i : ι) (answer : PersistAnswer)

namespace DeleteRun

variable [DecidableEq E] [DecidableEq ι]

/-- One step, where the deleted key is `key` and no save of it starts once the delete has. -/
def step (cfg : FlushConfig E V) (key : String × E) (s : DeleteRun E V ι) :
    DeleteAct E V ι → Option (DeleteRun E V ι)
  | .saveBegin j k row =>
    if s.saves j = none ∧ (k = key → s.del = .idle) then
      some { s with saves := update s.saves j (some (k, row)) }
    else none
  | .saveAdd j =>
    match s.saves j with
    | some (k, row) => some { s with
        tier := { s.tier with wb := s.tier.wb.add cfg.orderOf k row }
        saves := update s.saves j none }
    | none => none
  | .deleteBegin => if s.del = .idle then some { s with del := .begun } else none
  | .deleteRemove =>
    if s.del = .begun then some { s with
      tier := { s.tier with wb := (s.tier.wb.remove key).1 }
      del := .removed }
    else none
  | .deleteStore =>
    if s.del = .removed then some { s with
      tier := { s.tier with l3 := update s.tier.l3 key none }
      del := .deleted }
    else none
  | .deleteReturn => if s.del = .deleted then some { s with del := .returned } else none
  | .flushBegin i =>
    match s.flushes i with
    | .idle => some { s with flushes := update s.flushes i .draining }
    | _ => none
  | .flushStep i answer =>
    let next := ThreeTears.flushStep cfg s.tier (s.flushes i) answer
    some { s with tier := next.1, flushes := update s.flushes i next.2 }

def system (cfg : FlushConfig E V) (key : String × E) :
    StepSystem (DeleteRun E V ι) (DeleteAct E V ι) := ⟨step cfg key⟩

def start (tier : WriteBehind E V) : DeleteRun E V ι where
  tier := tier
  flushes _ := .idle
  saves _ := none
  del := .idle

/-- Nothing is about that could write the key's row: no flush has it to persist, the buffer does not
hold it, and no save has it still to add. -/
@[mk_iff] structure Gone (key : String × E) (s : DeleteRun E V ι) : Prop where
  held : s.tier.wb.held key = none
  flushes : ∀ i, ∀ w ∈ (s.flushes i).toPersist, w.1 ≠ key
  saves : ∀ j, ∀ save ∈ s.saves j, save.1 ≠ key

/-- The row is deleted from L3 only when nothing is about that could write it. -/
def Cleared (key : String × E) (s : DeleteRun E V ι) (a : DeleteAct E V ι) : Prop :=
  match a with
  | .deleteStore => s.Gone key
  | _ => True

instance [Fintype ι] (key) (s : DeleteRun E V ι) : Decidable (s.Gone key) :=
  decidable_of_iff' _ (gone_iff key s)

instance [Fintype ι] (key : String × E) (s : DeleteRun E V ι) (a : DeleteAct E V ι) :
    Decidable (Cleared key s a) := by
  unfold Cleared
  split <;> infer_instance

/-- What every step keeps; once the row has left L3 nothing is about that could write it. -/
structure Inv (key : String × E) (s : DeleteRun E V ι) : Prop where
  claims : s.tier.wb.ClaimsHeld
  wf : ∀ i, (s.flushes i).Wf
  gone : s.del = .deleted ∨ s.del = .returned → s.Gone key
  absent : s.del = .deleted ∨ s.del = .returned → s.tier.l3 key = none

variable {cfg : FlushConfig E V} {key : String × E} {s s' : DeleteRun E V ι} {i : ι}
  {a : DeleteAct E V ι} {answer : PersistAnswer} {tier : WriteBehind E V}

omit [DecidableEq ι] in
lemma inv_start (h : tier.wb.ClaimsHeld) : (start tier : DeleteRun E V ι).Inv key where
  claims := h
  wf _ := trivial
  gone hd := by simp [start] at hd
  absent hd := by simp [start] at hd

variable (h : s.Gone key)
include h

omit [DecidableEq ι] in
lemma Gone.notMem_writes (hwf : (s.flushes i).Wf) (answer : PersistAnswer) :
    key ∉ ((s.flushes i).writes cfg answer).map Prod.fst := by
  intro hmem
  obtain ⟨w, hw, hkey⟩ := List.mem_map.1 hmem
  exact h.flushes i w (mem_toPersist_of_writes hwf hw) hkey

lemma Gone.flushStep (hc : s.tier.wb.ClaimsHeld) (i : ι) (answer : PersistAnswer) :
    Gone key { s with
      tier := (flushStep cfg s.tier (s.flushes i) answer).1
      flushes := update s.flushes i (flushStep cfg s.tier (s.flushes i) answer).2 } := by
  refine ⟨held_flushStep hc h.held, ?_, h.saves⟩
  intro j w hw
  rcases eq_or_ne j i with rfl | hi
  · simp only [update_self] at hw
    rcases mem_toPersist_of_flushStep hw with hw | hw
    · exact h.flushes j w hw
    rintro rfl
    have hheld := (WriteBuffer.mem_unclaimed.1 hw).1
    rw [h.held] at hheld
    cases hheld
  simp only [update_of_ne hi] at hw
  exact h.flushes j w hw

lemma Gone.saveAdd {j : ι} {k : String × E} {row : V} (hj : s.saves j = some (k, row)) :
    Gone key { s with
      tier := { s.tier with wb := s.tier.wb.add cfg.orderOf k row }
      saves := update s.saves j none } := by
  have hk : key ≠ k := fun he => h.saves j (k, row) hj he.symm
  refine ⟨?_, h.flushes, ?_⟩
  · show (s.tier.wb.addLocked cfg.orderOf k row 0).held key = none
    rw [WriteBuffer.held_addLocked_of_ne hk]
    exact h.held
  intro j' save hsa
  rcases eq_or_ne j' j with rfl | hne
  · simp at hsa
  simp only [update_of_ne hne] at hsa
  exact h.saves j' save hsa

lemma Gone.saveBegin (j : ι) {k : String × E} (row : V) (hk : k ≠ key) :
    Gone key { s with saves := update s.saves j (some (k, row)) } := by
  refine ⟨h.held, h.flushes, ?_⟩
  intro j' save hsa
  rcases eq_or_ne j' j with rfl | he
  · simp only [update_self, Option.mem_def, Option.some.injEq] at hsa
    rw [← hsa]
    exact hk
  simp only [update_of_ne he] at hsa
  exact h.saves j' save hsa

omit h

lemma Inv.step (h : s.Inv key) (ho : Cleared key s a) (ht : s.step cfg key a = some s') :
    s'.Inv key := by
  cases a with simp only [DeleteRun.step] at ht
  | saveBegin j k row =>
    split_ifs at ht with hc
    cases ht
    refine { h with gone := ?_ }
    intro hd
    apply (h.gone hd).saveBegin j row
    intro hk
    have hidle := hc.2 hk
    rcases hd with hd | hd
    all_goals
      rw [hidle] at hd
      cases hd
  | saveAdd j =>
    split at ht <;> cases ht
    next k row hj =>
      exact ⟨h.claims.addLocked k row 0, h.wf, fun hd => (h.gone hd).saveAdd hj, h.absent⟩
  | deleteBegin =>
    split_ifs at ht
    cases ht
    exact ⟨h.claims, h.wf, by simp, by simp⟩
  | deleteRemove =>
    split_ifs at ht
    cases ht
    exact ⟨h.claims.discard key, h.wf, by simp, by simp⟩
  | deleteStore =>
    split_ifs at ht
    cases ht
    exact ⟨h.claims, h.wf, fun _ => { ho with }, fun _ => update_self _ _ _⟩
  | deleteReturn =>
    split_ifs at ht with hd
    cases ht
    have hg := h.gone (.inl hd)
    exact ⟨h.claims, h.wf, fun _ => { hg with }, fun _ => h.absent (.inl hd)⟩
  | flushBegin i =>
    split at ht
    next =>
      cases ht
      refine ⟨h.claims, ?_, ?_, h.absent⟩
      · intro j
        rcases eq_or_ne j i with rfl | hi
        · simp [FlushPc.Wf]
        · simpa [hi] using h.wf j
      intro hd
      refine ⟨(h.gone hd).held, ?_, (h.gone hd).saves⟩
      intro j w hw
      rcases eq_or_ne j i with rfl | hi
      · simp [FlushPc.toPersist] at hw
      simp only [update_of_ne hi] at hw
      exact (h.gone hd).flushes j w hw
    next => cases ht
  | flushStep i answer =>
    cases ht
    refine ⟨claimsHeld_flushStep h.claims, ?_,
      fun hd => (h.gone hd).flushStep h.claims i answer, ?_⟩
    · intro j
      rcases eq_or_ne j i with rfl | hi
      · simpa using wf_flushStep (h.wf j)
      · simpa [hi] using h.wf j
    intro hd
    show (flushStep cfg s.tier (s.flushes i) answer).1.l3 key = none
    rw [flushStep_l3, commit_l3_of_notMem ((h.gone hd).notMem_writes (h.wf i) answer)]
    exact h.absent hd

/-- Over runs in which nothing is about that could write the key's row when the delete takes it
out of L3: once the delete has returned, L3 has no row of the key and no step of a flush writes
one. -/
theorem delete_stands [∀ (s : DeleteRun E V ι) a, Decidable (Cleared key s a)]
    {acts : List (DeleteAct E V ι)} (htier : tier.wb.ClaimsHeld)
    (hrun : ((system cfg key).guard (Cleared key)).run (start tier) acts = some s)
    (hret : s.del = .returned) : s.tier.l3 key = none ∧
      ∀ i answer, key ∉ ((s.flushes i).writes cfg answer).map Prod.fst := by
  have h : s.Inv key := by
    refine StepSystem.run_guard_invariant _ (fun s a s' h ho ht => ?_) (inv_start htier) hrun
    exact h.step ho ht
  refine ⟨h.absent (.inr hret), ?_⟩
  intro i answer
  exact (h.gone (.inr hret)).notMem_writes (h.wf i) answer

def deleteBeforeFlush : List (DeleteAct Nat Nat Bool) :=
  [.saveBegin false ("user", 1) 7, .saveAdd false, .deleteBegin, .deleteRemove, .deleteStore,
    .deleteReturn]

def emptyTier : WriteBehind Nat Nat := ⟨.opened none, fun _ => none⟩

def oneTable : FlushConfig Nat Nat where
  keys := ⟨fun _ => none, fun _ _ => none⟩
  orderOf _ := none
  registered _ := true
  backend _ := none

theorem delete_stands_beforeFlush : ∃ s : DeleteRun Nat Nat Bool,
      ((system oneTable ("user", 1)).guard (Cleared ("user", 1))).run (start emptyTier)
        deleteBeforeFlush = some s ∧ s.del = .returned ∧ s.tier.l3 ("user", 1) = none := by
  exact StepSystem.exists_run_and _ rfl fun s hr he =>
    (delete_stands (WriteBuffer.ClaimsHeld.opened none) hr he).1

def deleteAfterDrain : List (DeleteAct Nat Nat Bool) :=
  [.saveBegin false ("user", 1) 7, .saveAdd false, .flushBegin false, .flushStep false .took,
    .deleteBegin, .deleteRemove, .deleteStore, .deleteReturn]

/-- The flush writes the row back after the delete has returned. -/
theorem delete_undone_afterDrain : ∃ s : DeleteRun Nat Nat Bool,
      (system oneTable ("user", 1)).run (start emptyTier) deleteAfterDrain = some s ∧
        s.del = .returned ∧ s.tier.l3 ("user", 1) = none ∧
        (flushStep oneTable s.tier (s.flushes false) .took).1.l3 ("user", 1) = some 7 :=
  StepSystem.exists_run_of_any _ rfl

end DeleteRun

end ThreeTears
