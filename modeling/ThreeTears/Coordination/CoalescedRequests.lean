import ThreeTears.Coordination.CoalescedRun

/-!
# No request is lost

While a request is recorded, every earlier one is cared for by it. The drain that deletes it cares
for all of them until its run ends or the request is recorded again. Two drains run at one time only
when the lease of one of them is over.
-/

namespace ThreeTears

open Option DrainPc CoalescedRun

variable {T δ : Type*}

def DrainPc.Numbered (sequence : Nat) : DrainPc → Prop
  | .found revision => 0 < revision
  | .deleted revision true => revision ≤ sequence
  | _ => True

lemma DrainPc.Numbered.mono {n m : Nat} {pc : DrainPc} (h : pc.Numbered n) (hle : n ≤ m) :
    pc.Numbered m := by
  unfold Numbered at h ⊢
  split
  · exact h
  · exact le_trans h hle
  · trivial

namespace CoalescedRun

/-- A run that started after the request has ended, a request is recorded, or a drain has taken the
request and its run has not ended. -/
def Cared (s : CoalescedRun T δ) (n : Nat) : Prop :=
  (∃ m ∈ s.completed, n ≤ m) ∨ s.requests.value.isSome ∨
    ∃ d m, (s.drains d).covers = some m ∧ n ≤ m

structure Kept (s : CoalescedRun T δ) : Prop where
  asked : ∀ n ∈ s.asked, n ≤ s.requests.revision
  drains : ∀ d, (s.drains d).Numbered s.requests.sequence
  late : ∀ revision ∈ s.late, 0 < revision
  cared : ∀ n ∈ s.asked, s.Cared n

variable {s s' : CoalescedRun T δ} {a : CoalescedAct δ} {d : δ} {n : Nat} {pc : DrainPc}

lemma kept_start (now : Int) (kv : KvKey (LeaseEntry T (δ × Nat))) (requests : KvKey Unit) :
    (start now kv requests : CoalescedRun T δ).Kept where
  asked n hn := by
    simp only [start, KvKey.getEntry] at hn ⊢
    cases hva : requests.value with
    | none => simp [hva] at hn
    | some => simp_all
  drains d := trivial
  late rev hmem := by cases hmem
  cared n hn := by
    refine .inr (.inl ?_)
    cases hva : requests.value with
    | none => simp [start, KvKey.getEntry, hva] at hn
    | some => simp [start, hva]

lemma Kept.request (h : s.Kept) : s.request.Kept where
  asked n hn := by
    obtain rfl | hn := List.mem_cons.1 hn
    · exact le_rfl
    · exact Nat.le_succ_of_le (le_trans (h.asked n hn) s.requests.revision_le)
  drains d := (h.drains d).mono (Nat.le_succ _)
  late := h.late
  cared n hn := .inr (.inl rfl)

section Drains

variable [DecidableEq δ]

lemma Cared.goto (h : s.Cared n)
    (hcov : ∀ m, (s.drains d).covers = some m → n ≤ m → ∃ m', pc.covers = some m' ∧ n ≤ m') :
    (s.goto d pc).Cared n := by
  obtain hd | hva | ⟨e, m, hm, hle⟩ := h
  · exact .inl hd
  · exact .inr (.inl hva)
  obtain rfl | he := eq_or_ne e d
  · obtain ⟨m', hm', hl'⟩ := hcov m hm hle
    exact .inr (.inr ⟨e, m', by simpa [CoalescedRun.goto] using hm', hl'⟩)
  · exact .inr (.inr ⟨e, m, by simpa [CoalescedRun.goto, he] using hm, hle⟩)

variable (h : s.Kept)
include h

variable (hpc : pc.Numbered s.requests.sequence)
include hpc

lemma Kept.goto (hcov : ∀ m, (s.drains d).covers = some m → ∃ m', pc.covers = some m' ∧ m ≤ m') :
    (s.goto d pc).Kept where
  __ := h
  drains := forall_update (I := fun _ => Numbered s.requests.sequence) h.drains hpc
  cared n hn := by
    refine (h.cared n hn).goto fun m hm hle => ?_
    obtain ⟨m', hm', hl'⟩ := hcov m hm
    exact ⟨m', hm', le_trans hle hl'⟩

lemma Kept.goto_of_none (hnone : (s.drains d).covers = none) : (s.goto d pc).Kept := by
  refine h.goto hpc fun m hm => ?_
  rw [hnone] at hm
  cases hm

omit hpc in
lemma Kept.delete (hrev : s.requests.revision = n) :
    ({ s with requests := s.requests.push none }.goto d (.deleted n true)).Kept where
  asked m hm := Nat.le_succ_of_le (le_trans (h.asked m hm) s.requests.revision_le)
  drains := by
    refine forall_update (I := fun _ => Numbered (s.requests.sequence + 1))
      (fun e => (h.drains e).mono (Nat.le_succ _)) ?_
    exact Nat.le_succ_of_le (hrev ▸ s.requests.revision_le)
  late := h.late
  cared m hm := .inr (.inr ⟨d, n, by simp [CoalescedRun.goto, covers], hrev ▸ h.asked m hm⟩)

omit hpc in
lemma Kept.finish (hr : s.drains d = .running n) (hpc : pc.Numbered s.requests.sequence) :
    ({ s with completed := n :: s.completed }.goto d pc).Kept where
  __ := h
  drains := forall_update (I := fun _ => Numbered s.requests.sequence) h.drains hpc
  cared m hm := by
    obtain ⟨k, hk, hle⟩ | hva | ⟨e, k, hk, hle⟩ := h.cared m hm
    · exact .inl ⟨k, List.mem_cons_of_mem _ hk, hle⟩
    · exact .inr (.inl hva)
    obtain rfl | he := eq_or_ne e d
    · rw [hr] at hk
      cases hk
      exact .inl ⟨n, List.mem_cons_self, hle⟩
    · exact .inr (.inr ⟨e, k, by simpa [CoalescedRun.goto, he] using hk, hle⟩)

lemma Kept.abandon (hnone : (s.drains d).covers = none) : (s.abandon d pc).Kept := by
  have hg := h.goto_of_none hpc hnone
  refine { hg with late := fun rev hmem => ?_ }
  obtain hmem | hmem := List.mem_append.1 hmem
  · have hd := h.drains d
    cases hpc : s.drains d with
    | found =>
      rw [hpc] at hmem hd
      obtain rfl := List.mem_singleton.1 hmem
      exact hd
    | _ => simp [hpc, sent] at hmem
  · exact h.late rev hmem

omit hpc

omit h in
lemma DrainPc.numbered_cancelled {pc pc' : DrainPc} (h : pc.cancelled = some pc') (n : Nat) :
    pc'.Numbered n := by
  cases pc <;> cases h <;> trivial

variable [DecidableEq T] {holder : δ → T} {ttl : Int}

lemma Kept.lookStep (ht : step holder ttl s (.look d) = some s') : s'.Kept := by
  unfold step at ht
  dsimp only at ht
  split at ht <;> try cases ht
  next hpc _ =>
    obtain ⟨lease, -, rfl⟩ := map_eq_some_iff.1 ht
    have hg : (s.goto d .holding).Kept :=
      h.goto_of_none trivial (by simp [hpc, DrainPc.covers])
    exact { hg with }
  next hpc _ => exact h.goto_of_none trivial (by simp [hpc, DrainPc.covers])

lemma Kept.heldStep (ht : step holder ttl s (.held d) = some s') : s'.Kept := by
  unfold step at ht
  dsimp only at ht
  split at ht
  next hpc =>
    simp only [ite_none_right_eq_some, Option.some.injEq] at ht
    obtain ⟨-, rfl⟩ := ht
    refine h.goto_of_none ?_ (by simp [hpc, DrainPc.covers])
    split_ifs <;> trivial
  next => cases ht

lemma Kept.readStep (ht : step holder ttl s (.read d) = some s') : s'.Kept := by
  unfold step at ht
  dsimp only at ht
  split at ht <;> cases ht
  next hpc he =>
    obtain ⟨w, hva, hq⟩ := map_eq_some_iff.1 he
    cases hq
    exact h.goto_of_none (s.requests.revision_pos (by simp [hva]))
      (by simp [hpc, DrainPc.covers])
  next hpc _ => exact h.goto_of_none trivial (by simp [hpc, DrainPc.covers])

lemma Kept.deleteStep (ht : step holder ttl s (.delete d) = some s') : s'.Kept := by
  unfold step at ht
  dsimp only at ht
  split at ht
  next rev hpc =>
    split at ht
    next hd =>
      cases ht
      obtain ⟨hrev, rfl⟩ := KvKey.deleteAt_eq_some_iff.1 hd
      have hpos : 0 < rev := by simpa [hpc, DrainPc.Numbered] using h.drains d
      exact h.delete (hrev.resolve_left (Nat.pos_iff_ne_zero.1 hpos))
    next =>
      cases ht
      exact h.goto_of_none trivial (by simp [hpc, DrainPc.covers])
  next => cases ht

lemma Kept.hearStep (ht : step holder ttl s (.hear d) = some s') : s'.Kept := by
  unfold step at ht
  dsimp only at ht
  split at ht <;> cases ht
  next rev taken hpc =>
    cases taken with
    | false => exact h.goto_of_none trivial (by simp [hpc, DrainPc.covers])
    | true =>
      have hle : rev ≤ s.requests.sequence := by
        simpa [hpc, DrainPc.Numbered] using h.drains d
      refine h.goto trivial fun m hm => ⟨_, rfl, ?_⟩
      simp only [hpc, DrainPc.covers, Option.some.injEq] at hm
      exact hm ▸ hle

lemma Kept.stopStep {cut : Bool} (ht : step holder ttl s (.stop d cut) = some s') : s'.Kept := by
  unfold step at ht
  dsimp only at ht
  split at ht
  next hpc =>
    split_ifs at ht
    cases ht
    refine h.goto trivial fun m hm => ⟨m, ?_, Nat.le_refl m⟩
    simpa [hpc, DrainPc.covers] using hm
  next => cases ht

lemma Kept.askAgainStep (ht : step holder ttl s (.askAgain d) = some s') : s'.Kept := by
  unfold step at ht
  dsimp only at ht
  split at ht <;> cases ht
  have has := h.request
  refine ⟨has.asked, ?_, has.late, fun n _ => .inr (.inl rfl)⟩
  exact forall_update (I := fun _ => DrainPc.Numbered s.request.requests.sequence) has.drains
    trivial

lemma Kept.workEndsStep (ht : step holder ttl s (.workEnds d) = some s') : s'.Kept := by
  unfold step at ht
  dsimp only at ht
  split at ht <;> cases ht
  next asked hpc =>
    refine h.goto trivial fun m hm => ⟨m, ?_, Nat.le_refl m⟩
    cases asked with
    | true => simp [hpc, DrainPc.covers] at hm
    | false => simpa [hpc, DrainPc.covers] using hm

lemma Kept.leftStep (ht : step holder ttl s (.left d) = some s') : s'.Kept := by
  unfold step at ht
  dsimp only at ht
  split at ht
  next hpc =>
    simp only [ite_none_right_eq_some, Option.some.injEq] at ht
    obtain ⟨-, rfl⟩ := ht
    refine h.goto_of_none ?_ (by simp [hpc, DrainPc.covers])
    split_ifs <;> trivial
  next => cases ht

theorem Kept.step (ho : s.Keeps holder a) (ht : step holder ttl s a = some s') : s'.Kept := by
  have hst := ht
  cases a with (simp only [step] at ht; try cases ht)
  | request => exact h.request
  | foreign => exact { h with drains := fun d => (h.drains d).mono (Nat.le_succ _) }
  | lease =>
    simp only [ite_none_right_eq_some, map_eq_some_iff] at ht
    obtain ⟨-, lease, -, rfl⟩ := ht
    exact { h with }
  | drain d | stopped d =>
    split at ht <;> cases ht
    next hpc => exact h.goto_of_none trivial (by simp [hpc, DrainPc.covers])
  | look d => exact h.lookStep hst
  | held => exact h.heldStep hst
  | read => exact h.readStep hst
  | delete d => exact h.deleteStep hst
  | hear d => exact h.hearStep hst
  | finish =>
    split at ht <;> cases ht
    next hpc =>
      apply h.finish hpc
      split_ifs <;> trivial
  | stop => exact h.stopStep hst
  | askAgain => exact h.askAgainStep hst
  | workEnds => exact h.workEndsStep hst
  | left => exact h.leftStep hst
  | cancel =>
    obtain ⟨pc, hpc, rfl⟩ := map_eq_some_iff.1 ht
    exact h.abandon (DrainPc.numbered_cancelled hpc _) ho
  | die => exact h.abandon trivial ho
  | land =>
    obtain ⟨rev, hn, rfl⟩ := map_eq_some_iff.1 ht
    have hpos := h.late rev (List.mem_of_getElem? hn)
    have hnone : s.requests.deleteAt rev = none := by
      simp [KvKey.deleteAt, Nat.pos_iff_ne_zero.1 hpos, ho rev hn]
    rw [hnone]
    exact { h with late := fun r hr => h.late r (List.mem_of_mem_eraseIdx hr) }

end Drains

end CoalescedRun

/-! ### The lease -/

section Lease

variable {ι : Type*}

lemma stamps_of_resumes [DecidableEq T] {holder : T} {now : Int}
    {handle ha' : Option (LeaseHandle T)} {pc pc' : LeasePc T} {ans : KvAnswer (LeaseEntry T ι)}
    (h : Resumes holder now handle pc ans ha' pc') : pc'.stamps = none := by
  cases h <;> rfl

lemma LeaseRun.stamps_step [DecidableEq T] [DecidableEq ι] {holder : ι → T} {s s' : LeaseRun T ι}
    {a : LeaseAct ι} (h : ∀ i, (s.calls i).pc.stamps = none)
    (hact : ∀ i ttl adopt, a ≠ .refresh i ttl adopt) (ht : step holder s a = some s') (i : ι) :
    (s'.calls i).pc.stamps = none := by
  have hu : ∀ (j : ι) (c : LeaseCall T ι), c.pc.stamps = none →
      (Function.update s.calls j c i).pc.stamps = none := fun j c hc =>
    forall_update (I := fun _ (c : LeaseCall T ι) => c.pc.stamps = none) h hc i
  cases moves_of_step ht with
  | tick | lapse | tell | resend | land => exact h i
  | begin _ j _ _ _ hbegins =>
    apply hu j _
    generalize s.handles j = before at hbegins
    cases hbegins with
    | acquire | renew | release => rfl
    | refresh _ ttl adopt => exact absurd rfl (hact j ttl adopt)
  | serve j => exact hu j _ (h j)
  | hear j _ _ _ _ hresumes => exact hu j _ (stamps_of_resumes hresumes)
  | giveUp j => exact hu j _ rfl

end Lease

namespace CoalescedRun

variable [DecidableEq T] [DecidableEq δ] {holder : δ → T} {ttl : Int} {s s' : CoalescedRun T δ}
  {a : CoalescedAct δ}

lemma lease_of_step (ht : step holder ttl s a = some s') :
    s'.lease = s.lease ∨ ∃ b, LeaseRun.step (pod holder) s.lease b = some s'.lease ∧
      ((a = .lease b ∧ b.ofHold = true) ∨ ∃ i hold, b = .acquire i ttl hold) := by
  cases a with simp only [step] at ht
  | lease b =>
    simp only [ite_none_right_eq_some, map_eq_some_iff] at ht
    obtain ⟨⟨hh, -⟩, lease, hl, rfl⟩ := ht
    exact .inr ⟨b, hl, .inl ⟨rfl, hh⟩⟩
  | look =>
    split at ht <;> try cases ht
    · obtain ⟨lease, hl, rfl⟩ := map_eq_some_iff.1 ht
      exact .inr ⟨_, hl, .inr ⟨_, _, rfl⟩⟩
    · exact .inl rfl
  | request | foreign | die =>
    cases ht
    exact .inl rfl
  | cancel | land =>
    obtain ⟨_, -, rfl⟩ := map_eq_some_iff.1 ht
    exact .inl rfl
  | held | stop | left =>
    split at ht
    · simp only [ite_none_right_eq_some, Option.some.injEq] at ht
      obtain ⟨-, rfl⟩ := ht
      exact .inl rfl
    · cases ht
  | delete =>
    split at ht
    · split at ht <;> cases ht <;> exact .inl rfl
    · cases ht
  | drain | read | hear | finish | askAgain | workEnds | stopped =>
    split at ht <;> cases ht <;> exact .inl rfl

structure LeaseKept (holder : δ → T) (s : CoalescedRun T δ) : Prop where
  timely : s.lease.Lawful WrittenBy (pod holder) ∧ s.lease.Timely (pod holder)
  stamps : ∀ i, (s.lease.calls i).pc.stamps = none

lemma LeaseKept.step (h : s.LeaseKept holder) (ho : s.Keeps holder a)
    (ht : step holder ttl s a = some s') : s'.LeaseKept holder := by
  obtain hl | ⟨b, hl, hact⟩ := lease_of_step ht
  · exact ⟨hl ▸ h.timely, hl ▸ h.stamps⟩
  have hr : ∀ i t adopt, b ≠ .refresh i t adopt := by
    rintro i t adopt rfl
    obtain ⟨-, hh⟩ | ⟨_, _, hq⟩ := hact
    · cases hh
    · cases hq
  have he : s.lease.Extends (pod holder) b := by
    cases b with
    | hear i =>
      obtain ⟨rfl, -⟩ | ⟨_, _, hq⟩ := hact
      · intro h₀ hd ans han
        refine ⟨ho h₀ hd ans han, fun call hcall => ?_⟩
        rw [h.stamps i] at hcall
        cases hcall
      · cases hq
    | _ => trivial
  exact ⟨LeaseRun.timely_step h.timely he hl, LeaseRun.stamps_step h.stamps hr hl⟩

/-- Over runs in which no drain dies or is cancelled between its delete of a request and the end of
its run: every request is recorded, taken by a drain in its run, or followed by a run that ended.
And of two drains in a run the lease of one is over. -/
theorem requests_kept {acts : List (CoalescedAct δ)} {now : Int}
    {kv : KvKey (LeaseEntry T (δ × Nat))} {requests : KvKey Unit}
    (hrun : ((system holder ttl).guard (Keeps holder)).run (start now kv requests) acts = some s) :
    (∀ n ∈ s.asked, s.Cared n) ∧
    ∀ d e, (s.drains d).Runs → (s.drains e).Runs → s.lease.Live (d, s.holds d) →
      s.lease.Live (e, s.holds e) → d = e := by
  have h : s.Kept ∧ s.LeaseKept holder := by
    refine StepSystem.run_guard_invariant _
      (I := fun s : CoalescedRun T δ => s.Kept ∧ s.LeaseKept holder) (fun s a s' h ho ht => ?_)
      ⟨kept_start now kv requests, ?_⟩ hrun
    · exact ⟨h.1.step ho ht, h.2.step ho ht⟩
    · exact ⟨⟨LeaseRun.lawful_start now kv, LeaseRun.timely_start now kv⟩, fun _ => rfl⟩
  refine ⟨h.1.cared, fun d e _ _ hd he => ?_⟩
  exact (Prod.mk.inj (h.2.timely.2.eq_of_live hd he)).1

/-- Two replicas; a request comes while the first one runs, and the second finds the lease held. -/
def requestedInRun : List (CoalescedAct Bool) :=
  [.request, .drain false, .look false, .lease (.serve (false, 1) false), .lease (.hear (false, 1)),
    .held false, .read false, .delete false, .hear false, .request, .drain true, .look true,
    .lease (.serve (true, 1) false), .lease (.hear (true, 1)), .lease (.serve (true, 1) false),
    .lease (.hear (true, 1)), .lease (.serve (true, 1) false), .lease (.hear (true, 1)), .held true,
    .finish false false, .read false, .delete false, .hear false, .die true]

theorem requests_kept_requestedInRun : ∃ s : CoalescedRun Nat Bool,
      ((system LeaseRun.pods 30).guard (Keeps LeaseRun.pods)).run (start 0 .empty .empty)
        requestedInRun = some s ∧ 3 ∈ s.asked ∧ s.Cared 3 := by
  exact StepSystem.exists_run_and _ rfl fun s hr has => (requests_kept hr).1 3 has

def diedInRun : List (CoalescedAct Unit) :=
  [.request, .drain (), .look (), .lease (.serve ((), 1) false), .lease (.hear ((), 1)), .held (),
    .read (), .delete (), .hear (), .die ()]

theorem request_lost_diedInRun : ∃ s : CoalescedRun Nat Unit,
      (system (fun _ => 1) 30).run (start 0 .empty .empty) diedInRun = some s ∧
        ∃ n ∈ s.asked, ¬ s.Cared n := by
  obtain ⟨s, hr, has, hc, hva, hdead⟩ : ∃ s : CoalescedRun Nat Unit,
      (system (fun _ => 1) 30).run (start 0 .empty .empty) diedInRun = some s ∧
        1 ∈ s.asked ∧ s.completed = [] ∧ s.requests.value = none ∧ s.drains () = .dead :=
    StepSystem.exists_run_of_any _ rfl
  refine ⟨s, hr, 1, has, ?_⟩
  rintro (⟨m, hm, -⟩ | he | ⟨d, m, hm, -⟩)
  · simp [hc] at hm
  · simp [hva] at he
  · simp [hdead, covers] at hm

end CoalescedRun

end ThreeTears
