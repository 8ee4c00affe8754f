import ThreeTears.Coordination.ReplayGuard

/-!
# No artifact is accepted twice

A nonce that some call has recorded is in the bucket, or too old for its verifier, or the bucket was
created after it was recorded. In the last case the artifact was issued before the bucket was, so no
call is answered fresh for it, as long as the wipe rule applies.
-/

namespace ThreeTears

open Function

variable {N ρ ι : Type*}

def GuardPc.holds : GuardPc N → Option N
  | .created nonce | .dated nonce _ => some nonce
  | _ => none

namespace ReplayRun

variable {cfg : ReplayGuardConfig} {issued : N → Int} {replica : ι → ρ} {s s' : ReplayRun N ρ ι}
  {a : ReplayAct N ρ ι} {nonce : N} {i : ι} {time : Int}

structure Traced (cfg : ReplayGuardConfig) (issued : N → Int) (s : ReplayRun N ρ ι) (nonce : N)
    (time : Int) : Prop where
  issued : issued nonce ≤ time + cfg.reach
  past : time ≤ s.now
  gone : s.bucket = none → time < s.now
  held : ∀ bucket ∈ s.bucket, (∃ t ∈ bucket.entries nonce, time ≤ t) ∨ time + cfg.ttl ≤ s.now ∨
    time < bucket.created

/-- What is known of the bucket and of the entries that calls created. -/
structure Ledger (cfg : ReplayGuardConfig) (issued : N → Int) (s : ReplayRun N ρ ι) : Prop where
  created : ∀ bucket ∈ s.bucket, bucket.created ≤ s.now
  wanted : ∀ i, ∀ nonce ∈ (s.calls i).wants, issued nonce ≤ s.now + cfg.reach
  traced : ∀ nonce time, (nonce, time) ∈ s.recorded → s.Traced cfg issued nonce time

/-! ### The ledger -/

variable (h : s.Traced cfg issued nonce time)
include h

lemma Traced.tick {now : Int} (hle : s.now ≤ now) :
    Traced cfg issued { s with now := now } nonce time where
  issued := h.issued
  past := Int.le_trans h.past hle
  gone hnone := Int.lt_of_lt_of_le (h.gone hnone) hle
  held bucket hb := by
    obtain he | httl | hlt := h.held bucket hb
    · exact .inl he
    · exact .inr (.inl (Int.le_trans httl hle))
    · exact .inr (.inr hlt)

lemma Traced.setBucket {bucket bucket' : NonceBucket N}
    (hu : s.bucket = some bucket) (hc : bucket'.created = bucket.created)
    (he : ∀ t ∈ bucket.entries nonce, time ≤ t →
      (∃ t' ∈ bucket'.entries nonce, time ≤ t') ∨ time + cfg.ttl ≤ s.now) :
    Traced cfg issued { s with bucket := some bucket' } nonce time where
  __ := h
  gone hnone := by cases hnone
  held b hb := by
    cases hb
    obtain ⟨t, ht, hle⟩ | httl | hlt := h.held bucket hu
    · obtain hen | httl := he t ht hle
      · exact .inl hen
      · exact .inr (.inl httl)
    · exact .inr (.inl httl)
    · exact .inr (.inr (hc ▸ hlt))

lemma Traced.of_eq (ho : s'.now = s.now)
    (hb : s'.bucket = s.bucket) : s'.Traced cfg issued nonce time where
  issued := h.issued
  past := ho ▸ h.past
  gone := ho ▸ hb ▸ h.gone
  held := ho ▸ hb ▸ h.held

omit h

lemma Ledger.of_eq (h : s.Ledger cfg issued) (ho : s'.now = s.now)
    (hb : s'.bucket = s.bucket) (hc : s'.calls = s.calls)
    (hr : s'.recorded = s.recorded) : s'.Ledger cfg issued where
  created := ho ▸ hb ▸ h.created
  wanted := ho ▸ hc ▸ h.wanted
  traced nonce time hmem := (h.traced nonce time (hr ▸ hmem)).of_eq ho hb

lemma Ledger.setBucket (h : s.Ledger cfg issued) {bucket bucket' : NonceBucket N}
    (hu : s.bucket = some bucket) (hc : bucket'.created = bucket.created)
    (he : ∀ nonce, ∀ t ∈ bucket.entries nonce,
      (bucket'.entries nonce = some t) ∨ t + cfg.ttl ≤ s.now) :
    Ledger cfg issued { s with bucket := some bucket' } where
  created b hb := by
    cases hb
    rw [hc]
    exact h.created bucket hu
  wanted := h.wanted
  traced nonce time hmem := by
    refine (h.traced nonce time hmem).setBucket hu hc fun t ht hle => ?_
    obtain hq | httl := he nonce t ht
    · exact .inl ⟨t, hq, hle⟩
    · exact .inr (by omega)

lemma Ledger.put [DecidableEq N] (h : s.Ledger cfg issued) {bucket : NonceBucket N}
    (hb : s.bucket = some bucket) (he : bucket.entries nonce = none) :
    Ledger cfg issued { s with bucket := some (bucket.put nonce s.now) } := by
  refine h.setBucket hb rfl fun n t ht => .inl ?_
  have hn : n ≠ nonce := by
    rintro rfl
    simp [he] at ht
  simpa [NonceBucket.put, hn] using ht

section Steps

variable [DecidableEq ι] {pc : GuardPc N}

lemma Ledger.goto (h : s.Ledger cfg issued)
    (hpc : ∀ nonce ∈ pc.wants, issued nonce ≤ s.now + cfg.reach) :
    (s.goto i pc).Ledger cfg issued where
  created := h.created
  wanted := forall_update (I := fun _ (pc : GuardPc N) =>
    ∀ nonce ∈ pc.wants, issued nonce ≤ s.now + cfg.reach) h.wanted hpc
  traced nonce time hmem := (h.traced nonce time hmem).of_eq rfl rfl

lemma Ledger.bind (h : s.Ledger cfg issued) (hpc : s.calls i = .binding nonce) :
    (s.goto i (.creating nonce)).Ledger cfg issued :=
  h.goto fun n hn => h.wanted i n (by simpa [hpc, GuardPc.wants] using hn)

variable [DecidableEq N] [DecidableEq ρ]

theorem Ledger.step (h : s.Ledger cfg issued) (hm : Moves cfg issued replica s a s') :
    s'.Ledger cfg issued := by
  cases hm with
  | tick elapsed =>
    have hle : s.now ≤ s.now + elapsed := by omega
    refine ⟨fun b hb => Int.le_trans (h.created b hb) hle, fun i n hn => ?_, fun n t hmem => ?_⟩
    · exact Int.le_trans (h.wanted i n hn) (Int.add_le_add_right hle _)
    · exact (h.traced n t hmem).tick hle
  | wipe elapsed =>
    have hlt : s.now < s.now + elapsed + 1 := by omega
    refine ⟨fun b hb => (by cases hb), fun i n hn => ?_, fun n t hmem => ?_⟩
    · exact Int.le_trans (h.wanted i n hn) (Int.add_le_add_right (Int.le_of_lt hlt) _)
    have hr := h.traced n t hmem
    have hpa := Int.lt_of_le_of_lt hr.past hlt
    exact ⟨hr.issued, Int.le_of_lt hpa, fun _ => hpa, fun b hb => (by cases hb)⟩
  | recreate hnone =>
    refine ⟨?_, h.wanted, fun n t hmem => ?_⟩
    · rintro _ ⟨⟩
      exact Int.le_refl _
    have hr := h.traced n t hmem
    refine ⟨hr.issued, hr.past, fun hq => (by cases hq), ?_⟩
    rintro _ ⟨⟩
    exact .inr (.inr (hr.gone hnone))
  | expire nonce _ _ hu he httl =>
    refine h.setBucket hu rfl fun n t ht => ?_
    obtain rfl | hn := eq_or_ne n nonce
    · cases he.symm.trans ht
      exact .inr httl
    · exact .inl (by simpa [NonceBucket.forget, hn] using ht)
  | stray _ _ hu he => exact h.put hu he
  | stamp => exact h.of_eq rfl rfl rfl rfl
  | stampAndBind _ _ _ _ _ hpc => exact (h.bind hpc).of_eq rfl rfl rfl rfl
  | bind _ _ _ hpc => exact h.bind hpc
  | recordUnique _ _ _ _ hissued =>
    refine h.goto fun n hn => ?_
    cases hn
    exact hissued
  | create i nonce bucket hpc hu he =>
    have hpu := h.put hu he
    have hissued := h.wanted i nonce (by simp [hpc, GuardPc.wants])
    refine Ledger.goto (s := { s with
      bucket := some (bucket.put nonce s.now)
      recorded := (nonce, s.now) :: s.recorded })
      ⟨hpu.created, hpu.wanted, fun n t hmem => ?_⟩ (by simp [GuardPc.wants])
    obtain hq | hmem := List.mem_cons.1 hmem
    · cases hq
      refine ⟨hissued, Int.le_refl _, fun hq => (by cases hq), ?_⟩
      rintro _ ⟨⟩
      exact .inl ⟨s.now, by simp [NonceBucket.put], Int.le_refl _⟩
    · exact (hpu.traced n t hmem).of_eq rfl rfl
  | dateCreated i nonce bucket hpc hu | ended a i => exact h.goto (by simp [GuardPc.wants])
  | fresh i =>
    have hg : (s.goto i .idle).Ledger cfg issued := h.goto (by simp [GuardPc.wants])
    exact hg.of_eq rfl rfl rfl rfl
  | stutter => exact h

end Steps

/-! ### One fresh answer -/

/-- The nonce was recorded before the bucket that the call is judged by was created. -/
def Barred (s : ReplayRun N ρ ι) : GuardPc N → Prop
  | .created nonce => ∃ time, (nonce, time) ∈ s.recorded ∧ ∀ bucket ∈ s.bucket,
    time < bucket.created
  | .dated nonce created => ∃ time, (nonce, time) ∈ s.recorded ∧ time < created
  | _ => False

/-- Of all calls that record a nonce at most one is not barred. -/
structure Once (s : ReplayRun N ρ ι) : Prop where
  recorded : ∀ i, ∀ nonce ∈ (s.calls i).holds, ∃ time, (nonce, time) ∈ s.recorded
  fresh : ∀ nonce ∈ s.fresh, ∃ time, (nonce, time) ∈ s.recorded
  rivals : ∀ i j nonce, i ≠ j → nonce ∈ (s.calls i).holds → nonce ∈ (s.calls j).holds →
    s.Barred (s.calls i) ∨ s.Barred (s.calls j)
  spent : ∀ i, ∀ nonce ∈ (s.calls i).holds, nonce ∈ s.fresh → s.Barred (s.calls i)
  nodup : s.fresh.Nodup

lemma Barred.of_le (h : s.Barred pc) (hr : s.recorded ⊆ s'.recorded)
    (hb : ∀ nonce time, (nonce, time) ∈ s.recorded →
      (∀ bucket ∈ s.bucket, time < bucket.created) → ∀ bucket ∈ s'.bucket, time < bucket.created) :
    s'.Barred pc := by
  cases pc with
  | created nonce =>
    obtain ⟨time, hmem, hlt⟩ := h
    exact ⟨time, hr hmem, hb nonce time hmem hlt⟩
  | dated =>
    obtain ⟨time, hmem, hlt⟩ := h
    exact ⟨time, hr hmem, hlt⟩
  | idle | binding nonce | creating nonce => exact h

lemma Once.of_le (h : s.Once) (hc : s'.calls = s.calls) (hfr : s'.fresh = s.fresh)
    (hr : s.recorded ⊆ s'.recorded) (hb : ∀ nonce time, (nonce, time) ∈ s.recorded →
      (∀ bucket ∈ s.bucket, time < bucket.created) → ∀ bucket ∈ s'.bucket, time < bucket.created) :
    s'.Once where
  recorded i nonce hmem := (h.recorded i nonce (hc ▸ hmem)).imp fun _ => (hr ·)
  fresh nonce hmem := (h.fresh nonce (hfr ▸ hmem)).imp fun _ => (hr ·)
  rivals i j nonce he hi hj := by
    rw [hc] at hi hj ⊢
    exact (h.rivals i j nonce he hi hj).imp (·.of_le hr hb)
      (·.of_le hr hb)
  spent i nonce hi hmem := by
    rw [hc] at hi ⊢
    exact (h.spent i nonce hi (hfr ▸ hmem)).of_le hr hb
  nodup := hfr ▸ h.nodup

lemma Once.setBucket (h : s.Once) {now : Int} {bucket' : Option (NonceBucket N)}
    (hc : ∀ b' ∈ bucket', ∃ b ∈ s.bucket, b'.created = b.created) :
    Once { s with now := now, bucket := bucket' } := by
  refine h.of_le rfl rfl (List.Subset.refl _) fun _ time _ hlt b' hb' => ?_
  obtain ⟨b, hb, he⟩ := hc b' hb'
  exact he ▸ hlt b hb

lemma Ledger.time_lt_created (h : s.Ledger cfg issued)
    (httl : cfg.maxAge + cfg.verifierFutureTolerance + 2 * clockDriftAllowance < cfg.ttl)
    (hy : s.now - clockDriftAllowance - cfg.maxAge ≤ issued nonce) {bucket : NonceBucket N}
    (hb : s.bucket = some bucket) (he : bucket.entries nonce = none)
    (hmem : (nonce, time) ∈ s.recorded) : time < bucket.created := by
  have hr := h.traced nonce time hmem
  obtain ⟨t, ht, -⟩ | hx | hlt := hr.held bucket hb
  · simp [he] at ht
  · -- when the entry expired the artifact was too old already
    have hissued := hr.issued
    rw [ReplayGuardConfig.reach] at hissued
    omega
  · exact hlt

lemma Ledger.not_isFresh (h : s.Ledger cfg issued) {fir : Option Int} {created : Int}
    (hmem : (nonce, time) ∈ s.recorded) (hlt : time < created)
    (hr : cfg.bucketReplacedALostOne fir created = true) :
    cfg.isFresh (issued nonce) fir created = false := by
  have hissued := (h.traced nonce time hmem).issued
  have hb : issued nonce < created + cfg.reach := by omega
  simp [ReplayGuardConfig.isFresh, ReplayGuardConfig.refusesArtifactsIssuedBefore, hr, hb]

/-- The wipe rule applies to a bucket that was created after some entry. -/
def Ruled (cfg : ReplayGuardConfig) (replica : ι → ρ) (s : ReplayRun N ρ ι) : Prop :=
  ∀ i nonce created, s.calls i = .dated nonce created → s.Barred (.dated nonce created) →
    cfg.bucketReplacedALostOne (s.firstExisted (replica i)) created = true

section Steps

variable [DecidableEq ι]

lemma Once.goto (h : s.Once) (hre : ∀ nonce ∈ pc.holds, ∃ time, (nonce, time) ∈ s.recorded)
    (hr : ∀ nonce ∈ pc.holds, ∀ j, j ≠ i → nonce ∈ (s.calls j).holds →
      s.Barred pc ∨ s.Barred (s.calls j))
    (hsp : ∀ nonce ∈ pc.holds, nonce ∈ s.fresh → s.Barred pc) : (s.goto i pc).Once where
  __ := h
  recorded := forall_update (I := fun _ (pc : GuardPc N) =>
    ∀ nonce ∈ pc.holds, ∃ time, (nonce, time) ∈ s.recorded) h.recorded hre
  rivals j k nonce he hj hk := by
    simp only [ReplayRun.goto] at hj hk ⊢
    obtain rfl | hi := eq_or_ne j i
    · rw [update_self] at hj ⊢
      rw [update_of_ne he.symm] at hk ⊢
      exact hr nonce hj k he.symm hk
    rw [update_of_ne hi] at hj ⊢
    obtain rfl | hki := eq_or_ne k i
    · rw [update_self] at hk ⊢
      exact (hr nonce hk j he hj).symm
    rw [update_of_ne hki] at hk ⊢
    exact h.rivals j k nonce he hj hk
  spent := forall_update (I := fun _ (pc : GuardPc N) =>
    ∀ nonce ∈ pc.holds, nonce ∈ s.fresh → s.Barred pc) h.spent hsp

lemma Once.goto_of_none (h : s.Once) (hpc : pc.holds = none) : (s.goto i pc).Once :=
  h.goto (by simp [hpc]) (by simp [hpc]) (by simp [hpc])

lemma Once.answer (h : s.Once) (hh : nonce ∈ (s.calls i).holds)
    (hb : ¬ s.Barred (s.calls i)) :
    Once ({ s with fresh := nonce :: s.fresh }.goto i .idle) := by
  have hidle : (s.goto i .idle).Once := h.goto_of_none rfl
  refine ⟨hidle.recorded, fun n hn => ?_, hidle.rivals, fun j n hj hn => ?_, ?_⟩
  · obtain rfl | hn := List.mem_cons.1 hn
    · exact h.recorded i n hh
    · exact h.fresh n hn
  · obtain rfl | hn := List.mem_cons.1 hn
    · simp only [ReplayRun.goto] at hj ⊢
      obtain rfl | hi := eq_or_ne j i
      · simp [GuardPc.holds] at hj
      rw [update_of_ne hi] at hj ⊢
      exact (h.rivals j i n hi hj hh).resolve_right hb
    · exact hidle.spent j n hj hn
  · exact List.nodup_cons.2 ⟨fun hmem => hb (h.spent i nonce hh hmem), h.nodup⟩

variable [DecidableEq N] [DecidableEq ρ]

theorem Once.step (h : s.Once) (hl : s.Ledger cfg issued) (hr : s.Ruled cfg replica)
    (httl : cfg.maxAge + cfg.verifierFutureTolerance + 2 * clockDriftAllowance < cfg.ttl)
    (hpr : Prompt cfg issued s a) (hm : Moves cfg issued replica s a s') : s'.Once := by
  cases hm with
  | tick => exact h.setBucket fun b hb => ⟨b, hb, rfl⟩
  | wipe => exact h.setBucket (by simp)
  | recreate hnone =>
    refine h.of_le rfl rfl (List.Subset.refl _) fun n t hmem _ => ?_
    rintro _ ⟨⟩
    exact (hl.traced n t hmem).gone hnone
  | expire nonce bucket time hu _ _ | stray nonce bucket hu _ =>
    apply h.setBucket
    rintro _ ⟨⟩
    exact ⟨bucket, hu, rfl⟩
  | stamp => exact h.of_le rfl rfl (List.Subset.refl _) fun _ _ _ hlt => hlt
  | stampAndBind _ i _ clo rep =>
    have ht : (s.stamp (replica i) clo rep).Once :=
      h.of_le rfl rfl (List.Subset.refl _) fun _ _ _ hlt => hlt
    exact ht.goto_of_none rfl
  | bind a i nonce hpc | recordUnique i nonce clo hpc _ | ended a i => exact h.goto_of_none rfl
  | create _ nonce bucket hpc hu he =>
    have hy := hpr nonce (by simp [hpc, GuardPc.wants])
    have hpu : Once { s with
        bucket := some (bucket.put nonce s.now)
        recorded := (nonce, s.now) :: s.recorded } := by
      refine h.of_le rfl rfl (List.subset_cons_self _ _) fun _ _ _ hlt => ?_
      rintro _ ⟨⟩
      exact hlt bucket hu
    have hba : (∃ time, (nonce, time) ∈ s.recorded) → Barred { s with
        bucket := some (bucket.put nonce s.now)
        recorded := (nonce, s.now) :: s.recorded } (.created nonce) := by
      rintro ⟨time, hmem⟩
      have hlt := hl.time_lt_created httl hy hu he hmem
      refine ⟨time, List.mem_cons_of_mem _ hmem, ?_⟩
      rintro _ ⟨⟩
      exact hlt
    apply hpu.goto
    · rintro _ ⟨⟩
      exact ⟨s.now, List.mem_cons_self⟩
    · rintro _ ⟨⟩ j - hj
      exact .inl (hba (h.recorded j nonce hj))
    rintro _ ⟨⟩ hmem
    exact hba (h.fresh nonce hmem)
  | dateCreated i nonce bucket hpc hu =>
    have hba : s.Barred (s.calls i) → s.Barred (.dated nonce bucket.created) := by
      rw [hpc]
      rintro ⟨time, hmem, hlt⟩
      exact ⟨time, hmem, hlt bucket hu⟩
    have hh : nonce ∈ (s.calls i).holds := by simp [hpc, GuardPc.holds]
    apply h.goto
    · rintro _ ⟨⟩
      exact h.recorded i nonce hh
    · rintro _ ⟨⟩ j hj hmem
      exact (h.rivals i j nonce hj.symm hh hmem).imp_left hba
    rintro _ ⟨⟩ hmem
    exact hba (h.spent i nonce hh hmem)
  | fresh i nonce created hpc hfr =>
    refine h.answer (by simp [hpc, GuardPc.holds]) fun hba => ?_
    rw [hpc] at hba
    have hre := hr i nonce created hpc hba
    obtain ⟨time, hmem, hlt⟩ := hba
    simp [hl.not_isFresh hmem hlt hre] at hfr
  | stutter => exact h

end Steps

end ReplayRun

end ThreeTears
