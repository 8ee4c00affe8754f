import ThreeTears.Coordination.Redemption

/-!
# A key is spent once

At most one call holds a swap at a time: the swap is the key's latest, and no other is taken over
it. Once a call is answered true L3 holds the row, and the calls that have seen none before find the
key taken.
-/

namespace ThreeTears

open Function Option ExpiringRun CasPc

variable {ι : Type*}

namespace Redemption

variable {ttl deadline : Int} {floor : Nat} {s s' : ExpiringRun Unit Int Empty ι}
  {a : ExpiringAct Unit Int Empty ι} {tiers : CasTiers Int Empty} {i : ι} {act : CallAct Int Empty}
  {pc : CasPc Int}

def Spent (answers : List (Unit × Option Int)) : Prop := ∃ answer ∈ answers, wasFirst answer

/-- Once a call was answered true no call holds a swap, and one that has seen no row cannot win
one. -/
structure Closed (deadline : Int) (s : ExpiringRun Unit Int Empty ι) : Prop where
  stored : Stored deadline s.cas.tiers.l3
  free : ∀ i, (s.cas.calls i).held = none
  taken : ∀ i, (s.cas.calls i).Unseen → s.cas.tiers.kv.value.isSome ∧
    ∀ j, s.cas.tiers.kv.revision ∉ (s.cas.calls j).withdraws

structure Sound (ttl deadline : Int) (floor : Nat) (s : ExpiringRun Unit Int Empty ι) :
    Prop where
  tiers : TiersSound deadline s.now floor s.cas.tiers
  calls : ∀ i, CallSound deadline floor s.cas.tiers (s.cas.calls i)
  owns : ∀ i, Owns s.cas.tiers (s.cas.calls i)
  requests : ∀ i, ∀ request ∈ s.requests i, deadline - ttl ≤ request.clock
  seen : ∀ i, ∀ request ∈ s.requests i, Spent request.seen → Spent s.answers
  alone : ∀ i j, i ≠ j → (s.cas.calls i).held.isSome → (s.cas.calls j).held = none
  apart : ∀ i j, ∀ revision ∈ (s.cas.calls i).held, revision ∉ (s.cas.calls j).withdraws
  closed : Spent s.answers → Closed deadline s
  late : ∀ i, ∀ request ∈ s.requests i, Spent request.seen → ¬ (s.cas.calls i).Unseen

structure Once (ttl deadline : Int) (floor : Nat) (s : ExpiringRun Unit Int Empty ι) : Prop where
  once : s.answers.countP wasFirst ≤ 1
  sound : s.now < deadline → Sound ttl deadline floor s

lemma CallSound.of_stored {tiers tiers' : CasTiers Int Empty} {pc : CasPc Int}
    (h : CallSound deadline floor tiers pc)
    (ht : Stored deadline tiers.l3 → Stored deadline tiers'.l3) :
    CallSound deadline floor tiers' pc := by
  cases pc with
  | confirming row rev | bumping row rev => exact ht h
  | _ => exact h

section Moves

variable (h : Sound ttl deadline floor s)
include h

lemma Sound.owns_of_moves (j : ι) (hmv : CallMoves s.cas.tiers (s.cas.calls i) act tiers pc) :
    Owns tiers (s.cas.calls j) := by
  by_cases hk : tiers.kv = s.cas.tiers.kv
  · rw [Owns, hk]
    exact h.owns j
  have hu : ∀ va, (∀ rev ∈ (s.cas.calls j).withdraws,
      0 < rev ∧ rev ≤ (s.cas.tiers.kv.push va).sequence) := fun _ rev hrev =>
    ⟨((h.owns j).2 rev hrev).1, Nat.le_succ_of_le ((h.owns j).2 rev hrev).2⟩
  obtain ⟨_, _, _, hpc, hr, rfl, -⟩ | ⟨rev, hpc, -, hrev, rfl, -⟩ := hmv.writes hk
  · -- a swap is only taken when the key has no entry
    refine ⟨fun rev hheld => ?_, hu _⟩
    have hcall := h.calls i
    rw [hpc] at hcall
    rw [hcall.2.1] at hr
    have hsome := ((h.owns j).1 rev hheld).1
    rw [show s.cas.tiers.kv.value = none from hr] at hsome
    cases hsome
  refine ⟨fun rev' hheld => ?_, hu _⟩
  have hmem : rev ∈ (s.cas.calls i).withdraws := by simp [hpc, withdraws]
  have hpos := ((h.owns i).2 rev hmem).1
  have he : rev' = rev := by
    have hl := ((h.owns j).1 rev' hheld).2
    omega
  exact absurd (he ▸ hmem) (h.apart j i rev' hheld)

variable (hmv : CallMoves s.cas.tiers (s.cas.calls i) act tiers pc)
include hmv

lemma Sound.owns_self : Owns tiers pc := by
  refine ⟨fun rev hheld => ?_, fun rev hw => ?_⟩
  · obtain ⟨hb, hk⟩ | ⟨-, -, hsome, he, -⟩ := held_of_moves (h.calls i) hmv hheld
    · rw [hk]
      exact (h.owns i).1 rev hb
    · exact ⟨hsome, he⟩
  obtain ⟨hb, hk⟩ := withdraws_of_moves hmv hw
  obtain ⟨hsome, rfl⟩ := (h.owns i).1 rev hb
  rw [hk]
  exact ⟨s.cas.tiers.kv.revision_pos hsome, s.cas.tiers.kv.revision_le⟩

lemma Sound.held_eq_none (hheld : pc.held.isSome) {j : ι}
    (he : j ≠ i) : (s.cas.calls j).held = none := by
  obtain ⟨rev, hheld⟩ := isSome_iff_exists.1 hheld
  obtain ⟨hb, -⟩ | ⟨-, hnone, -⟩ := held_of_moves (h.calls i) hmv hheld
  · exact h.alone i j he.symm (isSome_iff_exists.2 ⟨_, hb⟩)
  refine eq_none_iff_forall_not_mem.2 fun rev' hh' => ?_
  have hsome := ((h.owns j).1 rev' hh').1
  rw [hnone] at hsome
  cases hsome

lemma Sound.not_mem_withdraws {rev : Nat}
    (hheld : rev ∈ pc.held) (j : ι) : rev ∉ (s.cas.calls j).withdraws := by
  intro hw
  obtain ⟨hb, -⟩ | ⟨-, -, -, -, rfl⟩ := held_of_moves (h.calls i) hmv hheld
  · exact h.apart i j rev hb hw
  have hle := ((h.owns j).2 _ hw).2
  omega

omit hmv

omit h

lemma not_mem_withdraws_of_held {pc : CasPc Int} {rev : Nat} (hheld : rev ∈ pc.held) :
    rev ∉ pc.withdraws := by
  cases pc <;> simp [held, withdraws] at hheld ⊢

end Moves

section Steps

variable [DecidableEq ι] (h : Sound ttl deadline floor s)
include h

variable (hmv : CallMoves s.cas.tiers (s.cas.calls i) act tiers pc)
include hmv

lemma Sound.apart_of_moves (j k : ι) {rev : Nat} (hheld : rev ∈ (update s.cas.calls i pc j).held) :
    rev ∉ (update s.cas.calls i pc k).withdraws := by
  obtain rfl | hj := eq_or_ne j i
  · rw [update_self] at hheld
    obtain rfl | hk := eq_or_ne k j
    · rw [update_self]
      exact not_mem_withdraws_of_held hheld
    rw [update_of_ne hk]
    exact h.not_mem_withdraws hmv hheld k
  rw [update_of_ne hj] at hheld
  obtain rfl | hk := eq_or_ne k i
  · rw [update_self]
    intro hw
    have hb := (withdraws_of_moves hmv hw).1
    have hnone := h.alone k j hj.symm (isSome_iff_exists.2 ⟨_, hb⟩)
    simp [hnone] at hheld
  rw [update_of_ne hk]
  exact h.apart j k rev hheld

lemma Sound.alone_of_moves (j k : ι) (he : j ≠ k)
    (hheld : (update s.cas.calls i pc j).held.isSome) :
    (update s.cas.calls i pc k).held = none := by
  obtain rfl | hj := eq_or_ne j i
  · rw [update_self] at hheld
    rw [update_of_ne he.symm]
    exact h.held_eq_none hmv hheld he.symm
  rw [update_of_ne hj] at hheld
  obtain rfl | hk := eq_or_ne k i
  · rw [update_self]
    by_contra hsome
    rw [h.held_eq_none hmv (isSome_iff_ne_none.2 hsome) hj] at hheld
    cases hheld
  rw [update_of_ne hk]
  exact h.alone j k he hheld

lemma Closed.of_moves (hc : Closed deadline s) (ho : s.now < deadline)
    (hfo : s.Follows (redemptionTable ttl) i act) (answers : List (Unit × Option Int)) :
    Closed deadline { s with
      cas := { s.cas with tiers := tiers, calls := update s.cas.calls i pc }
      answers := answers } := by
  have hfree : ∀ rev, rev ∉ (s.cas.calls i).held := by simp [hc.free i]
  refine ⟨stored_of_moves (h.calls i) hmv hc.stored, fun j => ?_, fun j hu => ?_⟩
  · refine forall_update (I := fun _ (pc : CasPc Int) => pc.held = none) hc.free ?_ j
    refine eq_none_iff_forall_not_mem.2 fun rev hheld => ?_
    obtain ⟨hb, -⟩ | ⟨hb, hnone, -⟩ := held_of_moves (h.calls i) hmv hheld
    · exact hfree rev hb
    · simpa [hnone] using (hc.taken i hb).1
  have hb : ∃ j, (s.cas.calls j).Unseen := by
    simp only at hu
    obtain rfl | hj := eq_or_ne j i
    · rw [update_self] at hu
      exact ⟨j, unseen_of_moves ho hfo hmv hc.stored hu⟩
    rw [update_of_ne hj] at hu
    exact ⟨j, hu⟩
  obtain ⟨j', hb⟩ := hb
  obtain ⟨hsome, hw⟩ := hc.taken j' hb
  have hk : tiers.kv = s.cas.tiers.kv := by
    by_contra hk
    obtain ⟨_, _, _, hpc, hr, -⟩ | ⟨rev, hpc, -, hrev, -⟩ := hmv.writes hk
    · have hcall := h.calls i
      rw [hpc] at hcall
      rw [hcall.2.1] at hr
      rw [show s.cas.tiers.kv.value = none from hr] at hsome
      cases hsome
    have hmem : rev ∈ (s.cas.calls i).withdraws := by simp [hpc, withdraws]
    have hpos := ((h.owns i).2 rev hmem).1
    exact hw i ((hrev.resolve_left (ne_of_gt hpos)) ▸ hmem)
  simp only [hk]
  refine ⟨hsome, ?_⟩
  refine forall_update (I := fun _ (pc : CasPc Int) =>
    s.cas.tiers.kv.revision ∉ pc.withdraws) hw fun hmem => ?_
  exact hfree _ (withdraws_of_moves hmv hmem).1

lemma Closed.of_answer {va : Int}
    (han : (s.cas.calls i).answer s.cas.tiers.l3 act = some (some va))
    (answers : List (Unit × Option Int)) : Closed deadline { s with
      cas := { s.cas with tiers := tiers, calls := update s.cas.calls i pc }
      answers := answers } := by
  obtain ⟨hheld, ht, rfl, hk⟩ := answer_of_moves (h.calls i) hmv han
  obtain ⟨rev, hrevision⟩ := isSome_iff_exists.1 hheld
  obtain ⟨hsome, hl⟩ := (h.owns i).1 rev hrevision
  refine ⟨stored_of_moves (h.calls i) hmv ht, fun j => ?_, fun j _ => ?_⟩
  · obtain rfl | hj := eq_or_ne j i
    · simp [held]
    · simpa [hj] using h.alone i j hj.symm hheld
  simp only [hk, hl]
  refine ⟨hsome, ?_⟩
  exact forall_update (I := fun _ (pc : CasPc Int) => rev ∉ pc.withdraws)
    (fun k => h.apart i k rev hrevision) (by simp [withdraws])

omit hmv

omit h

omit [DecidableEq ι] in
lemma spent_answered (hsp : Spent (s.answered i act)) : Spent s.answers ∨
    ∃ va, (s.cas.calls i).answer s.cas.tiers.l3 act = some (some va) := by
  simp only [answered] at hsp
  split at hsp
  next han =>
    obtain ⟨found, hmem, hfirst⟩ := hsp
    obtain rfl | hmem := List.mem_cons.1 hmem
    · obtain ⟨va, rfl⟩ := isSome_iff_exists.1 hfirst
      exact .inr ⟨va, han⟩
    · exact .inl ⟨found, hmem, hfirst⟩
  next => exact .inl hsp

omit [DecidableEq ι] in
lemma subset_answered : s.answers ⊆ s.answered i act := by
  simp only [answered]
  split
  · exact List.subset_cons_self _ _
  · exact List.Subset.refl _

lemma Spent.mono {ans answers' : List (Unit × Option Int)} (h : Spent ans)
    (hu : ans ⊆ answers') : Spent answers' :=
  h.imp fun _ => And.imp_left (hu ·)

variable (h : Sound ttl deadline floor s)
include h

lemma Sound.call (hno : s.now < deadline) (ho : s.Follows (redemptionTable ttl) i act)
    (hmv : CallMoves s.cas.tiers (s.cas.calls i) act tiers pc) :
    Sound ttl deadline floor { s with
      cas := { s.cas with tiers := tiers, calls := update s.cas.calls i pc }
      answers := s.answered i act } where
  tiers :=
    have ht : TiersSound deadline s.now floor tiers :=
      tiersSound_of_moves (h.calls i) hmv h.tiers ho
    ht
  calls := by
    refine forall_update (I := fun _ => CallSound deadline floor tiers) (fun j => ?_) ?_
    · exact (h.calls j).of_stored (stored_of_moves (h.calls i) hmv)
    · exact callSound_of_moves hno h.tiers (h.calls i) (h.requests i) ho hmv
  owns := forall_update (I := fun _ => Owns tiers) (fun j => h.owns_of_moves j hmv)
    (h.owns_self hmv)
  requests := h.requests
  seen j req hr hsp := (h.seen j req hr hsp).mono subset_answered
  alone := h.alone_of_moves hmv
  apart j k _ hheld := h.apart_of_moves hmv j k hheld
  closed hsp := by
    obtain hsp | ⟨va, han⟩ := spent_answered hsp
    · exact .of_moves h hmv (h.closed hsp) hno ho _
    · exact .of_answer h hmv han _
  late j req hr hsp hu := by
    simp only at hu
    obtain rfl | hj := eq_or_ne j i
    · rw [update_self] at hu
      have hst := (h.closed (h.seen j req hr hsp)).stored
      exact h.late j req hr hsp
        (unseen_of_moves hno ho hmv hst hu)
    rw [update_of_ne hj] at hu
    exact h.late j req hr hsp hu

omit [DecidableEq ι] in
lemma Sound.countP_answered (hmv : CallMoves s.cas.tiers (s.cas.calls i) act tiers pc)
    (hle : s.answers.countP wasFirst ≤ 1) : (s.answered i act).countP wasFirst ≤ 1 := by
  simp only [answered]
  split
  next ans _ han =>
    cases ans with
    | none => simpa [List.countP_cons, wasFirst] using hle
    | some =>
      have hheld := (answer_of_moves (h.calls i) hmv han).1
      have hz : s.answers.countP wasFirst = 0 := by
        refine List.countP_eq_zero.2 fun found hmem hfirst => ?_
        simp [(h.closed ⟨found, hmem, hfirst⟩).free i] at hheld
      simp [List.countP_cons, hz, wasFirst]
  next => exact hle

omit [DecidableEq ι] in
lemma Sound.setTiers {tiers : CasTiers Int Empty} (ht : TiersSound deadline s.now floor tiers)
    (hst : Stored deadline s.cas.tiers.l3 → Stored deadline tiers.l3)
    (ho : ∀ i, Owns tiers (s.cas.calls i))
    (hta : ∀ i, (s.cas.calls i).Unseen → s.cas.tiers.kv.value.isSome →
      tiers.kv.value.isSome ∧ tiers.kv.revision = s.cas.tiers.kv.revision) :
    Sound ttl deadline floor { s with cas := { s.cas with tiers := tiers } } where
  __ := h
  tiers := ht
  calls i := (h.calls i).of_stored hst
  owns := ho
  closed hsp := by
    have hc := h.closed hsp
    refine ⟨hst hc.stored, hc.free, fun i hu => ?_⟩
    obtain ⟨hsome, hw⟩ := hc.taken i hu
    obtain ⟨hs', he⟩ := hta i hu hsome
    exact ⟨hs', fun j => he ▸ hw j⟩

omit [DecidableEq ι] in
lemma Sound.lose {epoch : Nat} {kv : KvKey (CasRow Int)} (hva : kv.value = none)
    (hep : floor ≤ epoch) (hk : ∀ i, ¬ (s.cas.calls i).Exposed) : Sound ttl deadline floor { s with
      cas := { s.cas with tiers := { s.cas.tiers with epoch := epoch, kv := kv } } } := by
  refine h.setTiers ⟨hep, h.tiers.epochsRead, by simp [hva], h.tiers.l3⟩ id (fun i => ?_) ?_
  · refine ⟨fun rev hheld => ?_, fun rev hw => ?_⟩
    · exact absurd (.inr (.inl (isSome_iff_exists.2 ⟨_, hheld⟩))) (hk i)
    · exact absurd (.inr (.inr (isSome_iff_exists.2 ⟨_, hw⟩))) (hk i)
  · exact fun i hu => absurd (.inl hu) (hk i)

lemma Sound.begin (hcl : deadline - ttl ≤ s.now) {epoch : Nat} (hpc : s.cas.calls i = .idle)
    (hep : epoch = s.cas.tiers.epoch ∨ epoch ∈ s.cas.tiers.epochsRead) :
    Sound ttl deadline floor { s with
      cas := { s.cas with
        tiers := { s.cas.tiers with epochsRead := epoch :: s.cas.tiers.epochsRead }
        calls := update s.cas.calls i (.reading epoch) }
      requests := update s.requests i (some ⟨(), s.now, s.answers⟩) } := by
  have hl : floor ≤ epoch := by
    obtain rfl | hmem := hep
    · exact h.tiers.epoch
    · exact h.tiers.epochsRead epoch hmem
  have ht : TiersSound deadline s.now floor
      { s.cas.tiers with epochsRead := epoch :: s.cas.tiers.epochsRead } :=
    ⟨h.tiers.epoch, List.forall_mem_cons.2 ⟨hl, h.tiers.epochsRead⟩, h.tiers.entry, h.tiers.l3⟩
  have hheld : ∀ j, (update s.cas.calls i (.reading epoch) j).held =
      (s.cas.calls j).held := fun j => by
    rcases eq_or_ne j i with rfl | hj <;> simp [*, held]
  have hw : ∀ j, (update s.cas.calls i (.reading epoch) j).withdraws =
      (s.cas.calls j).withdraws := fun j => by
    rcases eq_or_ne j i with rfl | hj <;> simp [*, withdraws]
  have hu : ∀ j, (update s.cas.calls i (.reading epoch) j).Unseen →
      j ≠ i ∧ (s.cas.calls j).Unseen := fun j hj => by
    obtain rfl | he := eq_or_ne j i
    · simp [CasPc.Unseen] at hj
    · exact ⟨he, by simpa [he] using hj⟩
  refine ⟨ht, ?_, fun j => ?_, ?_, ?_, fun j k he hj => ?_, fun j k rev hj => ?_,
    fun hsp => ?_, fun j req hr hsp hj => ?_⟩
  · exact forall_update (I := fun _ => CallSound deadline floor
      { s.cas.tiers with epochsRead := epoch :: s.cas.tiers.epochsRead })
      (fun j => (h.calls j).of_stored id) hl
  · simp only [Owns, hheld, hw]
    exact h.owns j
  · refine forall_update (I := fun _ (req : Option (CasRequest Unit Int)) =>
      ∀ r ∈ req, deadline - ttl ≤ r.clock) h.requests ?_
    rintro _ ⟨⟩
    exact hcl
  · refine forall_update (I := fun _ (req : Option (CasRequest Unit Int)) =>
      ∀ r ∈ req, Spent r.seen → Spent s.answers) h.seen ?_
    rintro _ ⟨⟩
    exact id
  · simp only [hheld] at hj ⊢
    exact h.alone j k he hj
  · simp only [hheld, hw] at hj ⊢
    exact h.apart j k rev hj
  · have hc := h.closed hsp
    refine ⟨hc.stored, fun j => (hheld j).trans (hc.free j), fun j hj => ?_⟩
    obtain ⟨hsome, ho⟩ := hc.taken j (hu j hj).2
    exact ⟨hsome, fun k => by simpa only [hw] using ho k⟩
  obtain ⟨he, hb⟩ := hu j hj
  simp only [update_of_ne he] at hr
  exact h.late j req hr hsp hb

omit h

theorem Once.step (h : Once ttl deadline floor s) (hi : InTime ttl deadline s a)
    (hk : KeepsBucket s a) (hmv : s.Moves (redemptionTable ttl) a s') :
    Once ttl deadline floor s' := by
  cases hmv with
  | tick time =>
    refine ⟨h.once, fun hlt => ?_⟩
    have hlt : s.now + time < deadline := hlt
    have hsn := h.sound (by omega)
    refine ⟨⟨hsn.tiers.epoch, hsn.tiers.epochsRead, hsn.tiers.entry, fun row hrow => ?_⟩,
      hsn.calls, hsn.owns, hsn.requests, hsn.seen, hsn.alone, hsn.apart,
      fun hsp => ?_, hsn.late⟩
    · refine (hsn.tiers.l3 row hrow).imp_right (And.imp_left fun hle => ?_)
      exact Int.le_trans hle (Int.le_add_of_nonneg_right (Int.natCast_nonneg time))
    have hc := hsn.closed hsp
    exact { hc with }
  | sweep _ hl3 he =>
    refine ⟨h.once, fun hlt => ?_⟩
    have hsn := h.sound hlt
    refine hsn.setTiers ⟨hsn.tiers.epoch, hsn.tiers.epochsRead, hsn.tiers.entry,
      by simp⟩ ?_ hsn.owns fun _ _ hsome => ⟨hsome, rfl⟩
    rintro ⟨row', hr', hle⟩
    cases hl3.symm.trans hr'
    exact absurd (Int.le_trans hle he) (Int.not_le.2 hlt)
  | lapse =>
    refine ⟨h.once, fun hlt => ?_⟩
    exact (h.sound hlt).lose (KvKey.lapse_value _) (h.sound hlt).tiers.epoch hk
  | begin _ _ _ hpc hep =>
    exact ⟨h.once, fun hlt => (h.sound hlt).begin hi.1 hpc hep⟩
  | call _ _ _ _ ho hmv =>
    have hsn := h.sound hi
    exact ⟨hsn.countP_answered hmv h.once, fun hlt => hsn.call hlt ho hmv⟩
  | flush p => exact p.elim
  | recreate _ hep =>
    refine ⟨h.once, fun hlt => ?_⟩
    exact (h.sound hlt).lose rfl (le_trans (h.sound hlt).tiers.epoch (le_of_lt hep)) hk
  | otherKey =>
    refine ⟨h.once, fun hlt => ?_⟩
    have hsn := h.sound hlt
    refine hsn.setTiers ⟨hsn.tiers.epoch, hsn.tiers.epochsRead, hsn.tiers.entry,
      hsn.tiers.l3⟩ id (fun i => ⟨(hsn.owns i).1, fun rev hrev => ?_⟩)
      fun _ _ hsome => ⟨hsome, rfl⟩
    exact ((hsn.owns i).2 rev hrev).imp_right Nat.le_succ_of_le

omit [DecidableEq ι] in
lemma Once.start {now : Int} {l3 : Option (Int × Option L2Order)}
    (hl3 : ∀ row ∈ l3, row.1 ≤ now ∧ ∀ ord ∈ row.2, ord.epoch < floor) :
    Once ttl deadline floor (.start now floor l3 Empty.elim : ExpiringRun Unit Int Empty ι) := by
  refine ⟨Nat.zero_le _, fun _ => ⟨⟨le_rfl, by simp [ExpiringRun.start, CasRun.start],
    by simp [ExpiringRun.start, CasRun.start, KvKey.empty], fun row hrow => ?_⟩,
    fun _ => trivial, fun _ => ?_, by simp [ExpiringRun.start], by simp [ExpiringRun.start],
    fun _ _ _ _ => rfl, by simp [ExpiringRun.start, CasRun.start, held], ?_,
    by simp [ExpiringRun.start]⟩⟩
  · simp only [ExpiringRun.start, CasRun.start, Option.mem_map] at hrow
    obtain ⟨stored, ht, rfl⟩ := hrow
    exact .inr (hl3 stored ht)
  · simp [Owns, ExpiringRun.start, CasRun.start, held, withdraws]
  rintro ⟨_, hmem, -⟩
  cases hmem

/-- At most one call is answered true, and a call that begins after it never sees the key without a
row. -/
theorem spends_once [∀ (s : ExpiringRun Unit Int Empty ι) a, Decidable (KeepsBucket s a)]
    {now : Int} {l3 : Option (Int × Option L2Order)} {as : List (ExpiringAct Unit Int Empty ι)}
    (hl3 : ∀ row ∈ l3, row.1 ≤ now ∧ ∀ order ∈ row.2, order.epoch < floor)
    (hrun : ((ExpiringRun.system (redemptionTable ttl)).guard fun s a =>
      InTime ttl deadline s a ∧ KeepsBucket s a).run (.start now floor l3 Empty.elim) as = some s) :
    s.answers.countP wasFirst ≤ 1 ∧ (s.now < deadline → ∀ i, ∀ request ∈ s.requests i,
      (∃ answer ∈ request.seen, wasFirst answer) →
        ¬ (s.cas.calls i).Unseen ∧ (s.cas.calls i).held = none) := by
  have ho : Once ttl deadline floor s := by
    refine StepSystem.run_guard_invariant _ (fun s a s' h ⟨hi, hk⟩ ht => ?_)
      (Once.start hl3) hrun
    exact h.step hi hk (moves_of_step ht)
  refine ⟨ho.once, fun hlt i request hr hsp => ?_⟩
  have hso := ho.sound hlt
  exact ⟨hso.late i request hr hsp, (hso.closed (hso.seen i request hr hsp)).free i⟩

end Steps

/-! ### Runs of two calls -/

/-- A call of `record_unique` that finds no row, up to its won swap. -/
def claims (i : Fin 2) (epoch : Nat) (expiry : Int) : List (ExpiringAct Unit Int Empty (Fin 2)) :=
  [.begin i () epoch, .call i (.getEntry false), .call i (.fetchFromStore false),
    .call i (.mutate (some expiry)), .call i (.swap true)]

def wipedBeforePersist : List (ExpiringAct Unit Int Empty (Fin 2)) :=
  claims 0 1 100 ++ [.recreate 2, .tick 1] ++ claims 1 2 101 ++
    [.call 1 .readEpoch, .call 1 (.persist true), .call 1 (.finish true),
      .call 0 .readEpoch, .call 0 .readBack, .call 0 (.persist true), .call 0 .confirm]

def wipedAfterReturn : List (ExpiringAct Unit Int Empty (Fin 2)) :=
  claims 0 1 100 ++
    [.call 0 .readEpoch, .call 0 (.persist true), .call 0 (.finish true), .recreate 2, .tick 1,
      .begin 1 () 1, .call 1 (.getEntry false), .call 1 (.fetchFromStore true),
      .call 1 (.mutate none)]

theorem spent_twice_wipedBeforePersist :
    ∃ s, ((ExpiringRun.system (redemptionTable 100)).guard (InTime 100 100)).run
        (.start 0 1 none Empty.elim) wipedBeforePersist = some s ∧ s.answers.countP wasFirst = 2 :=
  StepSystem.exists_run_of_any _ rfl

theorem spends_once_wipedAfterReturn :
    ∃ s, ((ExpiringRun.system (redemptionTable 100)).guard fun s a =>
        InTime 100 100 s a ∧ KeepsBucket s a).run (.start 0 1 none Empty.elim)
        wipedAfterReturn = some s ∧ s.answers = [((), none), ((), some 100)] ∧
      s.answers.countP wasFirst ≤ 1 := by
  exact StepSystem.exists_run_and _ rfl fun s hr _ => (spends_once (by simp) hr).1

end Redemption

end ThreeTears
