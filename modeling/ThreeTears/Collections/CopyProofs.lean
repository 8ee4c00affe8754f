import ThreeTears.Collections.CompleteCopy

/-!
# A copy that is proven complete is complete

A warm that a change of the L1 disturbs is behind the copy's count of changes once the change is
told, so it is not recorded. As long as no other warm writes over its rows, the L1 holds what the
recorded warm read until a change is told, and then the proof is void.
-/

namespace ThreeTears

variable {R V δ ω θ : Type*}

def ThreadPc.Named : ThreadPc R V → Prop
  | .deleting ks => ks ≠ []
  | .telling ks => ks ≠ []
  | _ => True

lemma WarmPc.begun_disturb (pc : WarmPc R V δ) :
    pc.disturb.begun = pc.begun.map fun begun => (begun.1, true) := by
  cases pc <;> rfl

variable [LinearOrder R]

namespace CompleteCopy

/-- The L1 holds the rows of the warm that has the loop, and another's proof stands only if that
warm is going to be recorded. -/
structure Replaced (s : CompleteCopy R V δ ω θ) (w : ω) (changes : Nat)
    (before : KeyFingerprint δ) (rows : List (R × V)) : Prop where
  ending : s.ending = some w
  l1 : s.l1 = .ofRows rows
  ordered : rows.Pairwise fun a b => a.1 < b.1
  count : rows.length = before.rowCount
  proof : s.proof.isSome → s.changes = changes

structure WarmInv (s : CompleteCopy R V δ ω θ) (w : ω) (pc : WarmPc R V δ) : Prop where
  le : ∀ begun ∈ pc.begun, begun.1 ≤ s.changes
  heard : ∀ begun ∈ pc.begun, begun.2 = true →
    begun.1 < s.changes ∨ ∃ j, (s.threads j).Unheard
  ordered : ∀ changes pos disturbed, pc = .copying changes pos disturbed → pos.Ordered
  replaced : ∀ changes before rows disturbed, pc = .replaced changes before rows disturbed →
    s.Replaced w changes before rows

structure Inv (s : CompleteCopy R V δ ω θ) : Prop where
  warms : ∀ w, s.WarmInv w (s.warms w)
  threads : ∀ j, (s.threads j).Named
  complete : s.ending = none → ∀ proof ∈ s.proof, ∃ r, s.recorded.head? = some r ∧
    r.proof = proof ∧ s.l1.rows = r.rows
  recorded : ∀ r ∈ s.recorded, r.disturbed = false ∧ r.rows.length = r.proof.rowCount

variable {c : CopyReader R V δ} {s s' : CompleteCopy R V δ ω θ} {w : ω} {pc : WarmPc R V δ}
  {ks : List R}

lemma WarmInv.idle (s : CompleteCopy R V δ ω θ) (w : ω) : s.WarmInv w .idle := by
  constructor <;> exact nofun

lemma WarmInv.not_replaced (h : s.WarmInv w pc) (he : s.ending = none) {changes : Nat}
    {before : KeyFingerprint δ} {rows : List (R × V)} {disturbed : Bool} :
    pc ≠ .replaced changes before rows disturbed := by
  intro hpc
  have hsome := (h.replaced _ _ _ _ hpc).ending
  rw [he] at hsome
  cases hsome

lemma WarmInv.frame (h : s.WarmInv w pc) (hc : s.changes ≤ s'.changes)
    (hh : (∃ j, (s.threads j).Unheard) → s.changes < s'.changes ∨ ∃ j, (s'.threads j).Unheard)
    (hr : ∀ changes before rows, s.Replaced w changes before rows →
      s'.Replaced w changes before rows) : s'.WarmInv w pc where
  le begun hb := (h.le begun hb).trans hc
  heard begun hb hd := by
    rcases h.heard begun hb hd with hlt | hu
    · exact .inl (lt_of_lt_of_le hlt hc)
    · exact (hh hu).imp_left (lt_of_le_of_lt (h.le begun hb))
  ordered := h.ordered
  replaced changes before rows disturbed hpc :=
    hr _ _ _ (h.replaced changes before rows disturbed hpc)

lemma Replaced.of_ending {changes : Nat} {before : KeyFingerprint δ} {rows : List (R × V)}
    {P : Prop} (h : s.Replaced w changes before rows) (he : s.ending = none) : P := by
  have hsome := h.ending
  rw [he] at hsome
  cases hsome

lemma WarmInv.disturb (h : s.WarmInv w pc) (he : s.ending = none) (hc : s.changes ≤ s'.changes)
    (hh : s.changes < s'.changes ∨ ∃ j, (s'.threads j).Unheard) : s'.WarmInv w pc.disturb where
  le begun hb := by
    rw [WarmPc.begun_disturb] at hb
    obtain ⟨begun, hmem, rfl⟩ := Option.map_eq_some_iff.1 hb
    exact (h.le begun hmem).trans hc
  heard begun hb _ := by
    rw [WarmPc.begun_disturb] at hb
    obtain ⟨begun, hmem, rfl⟩ := Option.map_eq_some_iff.1 hb
    exact hh.imp_left (lt_of_le_of_lt (h.le begun hmem))
  ordered changes pos disturbed hpc := by
    cases pc with try cases hpc
    | copying => exact h.ordered _ _ _ rfl
  replaced changes before rows disturbed hpc := by
    cases pc with
    | replaced => exact absurd rfl (h.not_replaced he)
    | _ => cases hpc

lemma changed_eq (hks : ks ≠ []) : s.changed ks = { s with
    proof := none
    whyNot := .changedSince
    changes := s.changes + ks.length } := if_neg hks

variable (h : s.Inv)
include h

lemma Inv.changed (he : s.ending = none) (hks : ks ≠ []) (t : KeyedTable R V) :
    ((s.setL1 t).changed ks).Inv := by
  have hlt : s.changes < s.changes + ks.length :=
    Nat.lt_add_of_pos_right (List.length_pos_iff.2 hks)
  rw [changed_eq hks]
  exact ⟨fun w => (h.warms w).disturb he (le_of_lt hlt) (.inl hlt), h.threads, fun _ => nofun,
    h.recorded⟩

variable [DecidableEq θ] {j : θ} {threadPc : ThreadPc R V}

lemma Inv.threadWrite (hr : s.proof = none) (he : s.ending = none)
    (hu : threadPc.Unheard) (hna : threadPc.Named) (t : KeyedTable R V) :
    ((s.setL1 t).setThread j threadPc).Inv where
  warms w := by
    refine (h.warms w).disturb he (le_refl s.changes) (.inr ⟨j, ?_⟩)
    simpa [setThread] using hu
  threads := forall_update (I := fun _ pc => ThreadPc.Named pc) h.threads hna
  complete _ proof hmem := by
    have hsome : s.proof = some proof := hmem
    rw [hr] at hsome
    cases hsome
  recorded := h.recorded

lemma Inv.setThread (hu : (s.threads j).Unheard → threadPc.Unheard)
    (hna : threadPc.Named) : (s.setThread j threadPc).Inv where
  __ := h
  warms w := by
    refine (h.warms w).frame (le_refl s.changes) (fun ⟨i, hi⟩ => .inr ⟨i, ?_⟩)
      fun _ _ _ hr => { hr with }
    rcases eq_or_ne i j with rfl | hij
    · simpa [CompleteCopy.setThread] using hu hi
    · simpa [CompleteCopy.setThread, hij] using hi
  threads := forall_update (I := fun _ pc => ThreadPc.Named pc) h.threads hna

lemma Inv.tells (he : s.ending = none) (hpc : s.threads j = .telling ks) :
    ((s.setThread j .idle).changed ks).Inv := by
  have hks : ks ≠ [] := by
    have hna := h.threads j
    rw [hpc] at hna
    exact hna
  have hlt : s.changes < s.changes + ks.length :=
    Nat.lt_add_of_pos_right (List.length_pos_iff.2 hks)
  rw [changed_eq hks]
  refine ⟨fun w => ?_, ?_, fun _ => nofun, h.recorded⟩
  · exact (h.warms w).frame (le_of_lt hlt) (fun _ => .inl hlt) fun _ _ _ hr =>
      hr.of_ending he
  · exact forall_update (I := fun _ pc => ThreadPc.Named pc) h.threads trivial

variable [DecidableEq ω]

omit [DecidableEq θ] in
lemma Inv.setWarm (hw : s'.warms = Function.update s.warms w pc)
    (ht : s'.threads = s.threads) (hh : s'.changes = s.changes)
    (hr : ∀ v changes before rows, v ≠ w → s.Replaced v changes before rows →
      s'.Replaced v changes before rows) (hwa : s'.WarmInv w pc)
    (hc : s'.ending = none → ∀ pro ∈ s'.proof, ∃ r, s'.recorded.head? = some r ∧
      r.proof = pro ∧ s'.l1.rows = r.rows)
    (he : ∀ r ∈ s'.recorded, r.disturbed = false ∧ r.rows.length = r.proof.rowCount) : s'.Inv := by
  refine ⟨fun v => ?_, ht ▸ h.threads, hc, he⟩
  rw [hw]
  rcases eq_or_ne v w with rfl | hv
  · rwa [Function.update_self]
  rw [Function.update_of_ne hv]
  refine (h.warms v).frame hh.ge (fun hu => .inr (ht ▸ hu)) ?_
  exact fun changes before rows => hr v changes before rows hv

variable [DecidableEq δ]

theorem Inv.step {a : CopyAct R V ω θ} (ho : s.Orderly a) (hm : s.Moves c a s') : s'.Inv := by
  cases hm with
  | writeL3 =>
    refine { h with warms := fun w => ?_ }
    exact (h.warms w).frame (le_refl s.changes) .inr fun _ _ _ hre => { hre with }
  | begins _ he =>
    refine h.setWarm rfl rfl rfl (fun _ _ _ _ _ hre => hre.of_ending he) ?_
      (fun _ => nofun) h.recorded
    constructor
    · rintro begun ⟨⟩
      exact le_rfl
    · rintro begun ⟨⟩ ⟨⟩
    · rintro changes pos dis ⟨⟩
      trivial
    · exact nofun
  | reads w _ _ _ _ hpc hread =>
    have hw := h.warms w
    rw [hpc] at hw
    refine h.setWarm rfl rfl rfl (fun _ _ _ _ _ hre => { hre with }) ?_ h.complete h.recorded
    refine ⟨hw.le, hw.heard, ?_, nofun⟩
    rintro _ _ _ ⟨⟩
    exact CopyReader.ordered_next (hw.ordered _ _ _ rfl) hread
  | leaves _ w _ he =>
    exact h.setWarm rfl rfl rfl (fun _ _ _ _ _ hre => hre.of_ending he)
      (.idle _ w) (fun _ => h.complete he) h.recorded
  | replaces w changes _ _ _ dis he hpc hrefusal =>
    have hw := h.warms w
    rw [hpc] at hw
    refine h.setWarm rfl rfl rfl (fun _ _ _ _ _ hre => hre.of_ending he) ?_ nofun
      h.recorded
    refine ⟨hw.le, hw.heard, nofun, ?_⟩
    rintro _ _ _ _ ⟨⟩
    refine ⟨rfl, rfl, hw.ordered _ _ _ rfl, CopyReader.rowCount_of_refusal hrefusal, ?_⟩
    exact fun hsome => ho hsome (changes, dis) (by rw [hpc]; rfl)
  | refuses w _ before rows _ _ hpc hwhy =>
    have hre := (h.warms w).replaced _ _ _ _ hpc
    refine h.setWarm rfl rfl rfl (fun v _ _ _ hv ht => ?_) (.idle _ w) ?_ h.recorded
    · exact absurd (Option.some.inj (ht.ending.symm.trans hre.ending)) hv
    -- the rows are those that were put there, so the warm is refused for a change
    intro _ pro hpr
    have hi : c.heldDiffers s.l1 rows before.rowCount = none := by
      rw [hre.l1, ← hre.count]
      exact CopyReader.heldDiffers_ofRows hre.ordered
    have hsome : s.proof.isSome := by
      rw [show s.proof = some pro from hpr]
      rfl
    exact absurd (hre.proof hsome) (hwhy.resolve_left (not_not.2 hi))
  | records w _ _ rows _ hpc hc =>
    have hw := h.warms w
    rw [hpc] at hw
    have hre := hw.replaced _ _ _ _ rfl
    refine h.setWarm rfl rfl rfl (fun v _ _ _ hv ht => ?_) (.idle _ w) ?_ ?_
    · exact absurd (Option.some.inj (ht.ending.symm.trans hre.ending)) hv
    · rintro _ pro ⟨⟩
      refine ⟨_, rfl, rfl, ?_⟩
      change s.l1.rows = rows
      rw [hre.l1, KeyedTable.rows_ofRows hre.ordered]
    intro r hr
    rcases List.mem_cons.1 hr with rfl | hr
    · refine ⟨?_, hre.count⟩
      by_contra hd
      rw [Bool.not_eq_false] at hd
      rcases hw.heard _ rfl hd with hlt | ⟨j, hj⟩
      · exact absurd hlt (not_lt.2 hc.le)
      refine ho (fun begun hb => ?_) j hj
      rw [hpc] at hb
      cases hb
      exact hc
    · exact h.recorded r hr
  | changes _ t _ he hks => exact h.changed he hks t
  | hands _ j _ hpc hnext =>
    have hu : ¬ (s.threads j).Unheard := by
      rw [hpc]
      exact not_false
    rcases hnext with ⟨k, v, rfl⟩ | ⟨ks, hks, rfl⟩
    · exact h.setThread (fun hj => absurd hj hu) trivial
    · exact h.setThread (fun hj => absurd hj hu) hks
  | stores _ _ _ _ t hnext =>
    refine h.threadWrite ho.1 ho.2 ?_ ?_ t
    · rcases hnext with rfl | rfl <;> trivial
    · rcases hnext with rfl | rfl <;> exact List.cons_ne_nil _ _
  | deletes j _ _ t hpc =>
    have hu : (s.threads j).Unheard := by
      rw [hpc]
      trivial
    have hwr : ((s.setL1 t).setThread j (s.threads j)).Inv :=
      h.threadWrite ho.1 ho.2 hu (h.threads j) t
    rwa [CompleteCopy.setThread, show (s.setL1 t).threads = s.threads from rfl,
      Function.update_eq_self] at hwr
  | ends j _ hpc =>
    have hna := h.threads j
    rw [hpc] at hna
    exact h.setThread (fun _ => trivial) hna
  | tells _ _ he hpc => exact h.tells he hpc

omit h

omit [DecidableEq θ] [DecidableEq ω] [DecidableEq δ] in
lemma Inv.start (l3 l1 : KeyedTable R V) : (start l3 l1 : CompleteCopy R V δ ω θ).Inv where
  warms w := .idle _ w
  threads _ := trivial
  complete _ := nofun
  recorded := nofun

variable [∀ (s : CompleteCopy R V δ ω θ) a, Decidable (s.Orderly a)]

/-- In every orderly run the L1 of a copy that answers with its proof holds exactly the rows that
the warm recorded last has read, as many as the proof counts, and no warm was recorded during which
a row of the L1 was evicted or written. -/
theorem require_complete {l3 l1 : KeyedTable R V} {as : List (CopyAct R V ω θ)}
    (hrun : ((system c).guard Orderly).run (start l3 l1) as = some s) :
    (∀ proof, s.ending = none → s.require = .ok proof → ∃ r, s.recorded.head? = some r ∧
      r.proof = proof ∧ s.l1.rows = r.rows ∧ s.l1.rows.length = proof.rowCount) ∧
    ∀ r ∈ s.recorded, r.disturbed = false := by
  have h : s.Inv := by
    refine StepSystem.run_guard_invariant _ (I := Inv) (fun s a s' h ho ht => ?_)
      (.start l3 l1) hrun
    exact h.step ho (moves_of_step ht)
  refine ⟨fun proof he hre => ?_, fun r hr => (h.recorded r hr).1⟩
  have hpr : s.proof = some proof := by
    rw [require] at hre
    cases hsome : s.proof with rw [hsome] at hre
    | none => cases hre
    | some =>
      cases hre
      rfl
  obtain ⟨r, hr, rfl, hro⟩ := h.complete he proof hpr
  refine ⟨r, hr, rfl, hro, ?_⟩
  rw [hro]
  exact (h.recorded r (List.mem_of_mem_head? hr)).2

def pairReader : CopyReader Nat Nat Nat where
  pageSize := 2
  pageSize_pos := Nat.two_pos
  digest rows := (rows.map Prod.snd).sum
  keyDigest := List.sum

def warmActs (w : Bool) : List (CopyAct Nat Nat Bool Unit) := [.warm w, .read w, .read w, .read w]

/-- A warm has read the table when a row changes in L3 and is evicted. Another warm reads it whole
and is recorded, and then the first one puts its rows over the other's. -/
def warmedOver : List (CopyAct Nat Nat Bool Unit) :=
  warmActs false ++ [.writeL3 (.ofRows [(1, 5)]), .evict [1] [1]] ++ warmActs true ++
    [.replace true, .record true, .replace false, .record false]

def evictedOffLoop : List (CopyAct Nat Nat Bool Unit) :=
  warmActs false ++ [.evictOffLoop () (List.range 64), .threadDelete () 1, .replace false,
    .record false]

theorem require_warmedOver :
    (∃ s, (system pairReader).run (start (.ofRows [(1, 3)]) .empty) warmedOver = some s ∧
      s.ending = none ∧ s.proof = some ⟨1, 5⟩ ∧ s.l1.rows = [(1, 3)] ∧
      (s.recorded.map WarmRecord.rows).head? = some [(1, 5)]) ∧
    ∃ s, (system pairReader).run (start (.ofRows [(1, 3)]) .empty) evictedOffLoop = some s ∧
      s.recorded.map WarmRecord.disturbed = [true] :=
  ⟨StepSystem.exists_run_of_any _ rfl, StepSystem.exists_run_of_any _ rfl⟩

def warmedAgain : List (CopyAct Nat Nat Bool Unit) :=
  warmActs false ++ [.writeL3 (.ofRows [(1, 5)]), .evict [1] [1], .replace false, .record false] ++
    warmActs true ++ [.replace true, .record true]

theorem require_warmedAgain :
    ∃ s, ((system pairReader).guard Orderly).run (start (.ofRows [(1, 3)]) .empty) warmedAgain =
        some s ∧ (s.ending = none ∧ s.proof = some ⟨1, 5⟩) ∧
      ∃ r, s.recorded.head? = some r ∧ s.l1.rows = r.rows ∧ r.disturbed = false := by
  refine StepSystem.exists_run_and _ rfl fun s hu hs => ?_
  obtain ⟨hc, hl⟩ := require_complete hu
  obtain ⟨r, hr, -, ho, -⟩ := hc ⟨1, 5⟩ hs.1 (by rw [require, hs.2])
  exact ⟨r, hr, ho, hl r (List.mem_of_mem_head? hr)⟩

end CompleteCopy

end ThreeTears
