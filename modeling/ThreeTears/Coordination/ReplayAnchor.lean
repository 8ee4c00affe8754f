import ThreeTears.Coordination.ReplayRuns

/-!
# The replay anchor

The anchor is meant to tell a bucket that replaced a lost one from the ledger's first. It does so
when it is older than every bucket that is created after a nonce was recorded, by more than the
allowance. A broker that restarts shortly after the first boot breaks this.
-/

namespace ThreeTears

open StepSystem

variable {N ρ ι : Type*}

namespace ReplayRun

variable {cfg : ReplayGuardConfig} {issued : N → Int} {replica : ι → ρ} {s s' : ReplayRun N ρ ι}
  {a : ReplayAct N ρ ι} {nonce : N} {i : ι} {created : Int}

/-- A bucket's creation time that the anchor is told from. -/
structure Dates (cfg : ReplayGuardConfig) (s : ReplayRun N ρ ι) (created : Int) : Prop where
  past : created ≤ s.now
  older : cfg.anchored = true → (∃ entry ∈ s.recorded, entry.2 < created) →
    ∃ first ∈ s.anchor, first < created - clockDriftAllowance

structure Anchors (cfg : ReplayGuardConfig) (s : ReplayRun N ρ ι) : Prop where
  read : ∀ r, ∀ first ∈ s.firstExisted r, s.anchor = some first
  bucket : ∀ bucket ∈ s.bucket, s.Dates cfg bucket.created
  dated : ∀ i nonce created, s.calls i = .dated nonce created → s.Dates cfg created

lemma Dates.of_le (h : s.Dates cfg created) (ho : s.now ≤ s'.now)
    (hc : ∀ fir ∈ s.anchor, s'.anchor = some fir)
    (hr : ∀ entry ∈ s'.recorded, entry ∈ s.recorded ∨ s.now ≤ entry.2) : s'.Dates cfg created where
  past := Int.le_trans h.past ho
  older han := by
    rintro ⟨entry, hmem, hlt⟩
    obtain hmem | hle := hr entry hmem
    · obtain ⟨fir, hfirst, hold⟩ := h.older han ⟨entry, hmem, hlt⟩
      exact ⟨fir, hc fir hfirst, hold⟩
    have hpa := h.past
    omega

lemma Dates.of_eq (h : s.Dates cfg created) (ho : s'.now = s.now) (han : s'.anchor = s.anchor)
    (hr : s'.recorded = s.recorded) : s'.Dates cfg created where
  past := ho ▸ h.past
  older := han ▸ hr ▸ h.older

lemma Anchors.ruled (h : s.Anchors cfg) : s.Ruled cfg replica := by
  rintro i nonce created hpc ⟨time, hmem, hlt⟩
  unfold ReplayGuardConfig.bucketReplacedALostOne
  split
  next first han hfirst =>
    obtain ⟨fir', hf', hold⟩ := (h.dated i nonce created hpc).older han ⟨_, hmem, hlt⟩
    cases (h.read _ first hfirst).symm.trans hf'
    exact decide_eq_true hold
  next => rfl

lemma Anchors.setBucket (h : s.Anchors cfg) {bucket bucket' : NonceBucket N}
    (hu : s.bucket = some bucket) (hc : bucket'.created = bucket.created) :
    Anchors cfg { s with bucket := some bucket' } where
  read := h.read
  bucket b hb := by
    cases hb
    rw [hc]
    exact (h.bucket bucket hu).of_eq rfl rfl rfl
  dated i n c hi := (h.dated i n c hi).of_eq rfl rfl rfl

section Steps

variable [DecidableEq ι]

lemma eq_or_of_goto_calls {pc pc' : GuardPc N} {j : ι} (h : (s.goto i pc).calls j = pc') :
    pc = pc' ∨ s.calls j = pc' := by
  simp only [goto] at h
  obtain rfl | he := eq_or_ne j i
  · exact .inl (by simpa using h)
  · exact .inr (by simpa [he] using h)

lemma Anchors.goto (h : s.Anchors cfg) {pc : GuardPc N}
    (hpc : ∀ nonce created, pc = .dated nonce created → s.Dates cfg created) :
    (s.goto i pc).Anchors cfg where
  read := h.read
  bucket b hb := (h.bucket b hb).of_eq rfl rfl rfl
  dated j n c hj := by
    have hd : s.Dates cfg c := by
      obtain he | he := eq_or_of_goto_calls hj
      · exact hpc n c he
      · exact h.dated j n c he
    exact hd.of_eq rfl rfl rfl

variable [DecidableEq ρ]

omit [DecidableEq ι] in
lemma Anchors.stamp (h : s.Anchors cfg) (r : ρ) (clo : Int) (rep : Bool) :
    (s.stamp r clo rep).Anchors cfg := by
  have han : ∀ first ∈ s.anchor, (s.stamp r clo rep).anchor = some first := by
    intro first hfirst
    simp [ReplayRun.stamp, Option.mem_def.1 hfirst]
  have hd : ∀ c, s.Dates cfg c → (s.stamp r clo rep).Dates cfg c := fun c hc =>
    hc.of_le (Int.le_refl _) han fun _ => .inl
  refine ⟨fun r' first hfirst => ?_, fun b hb => hd _ (h.bucket b hb),
    fun i n c hi => hd c (h.dated i n c hi)⟩
  simp only [ReplayRun.stamp] at hfirst ⊢
  split_ifs at hfirst
  · obtain rfl | he := eq_or_ne r' r
    · simpa using hfirst
    rw [Function.update_of_ne he] at hfirst
    simp [h.read r' first hfirst]
  · simp [h.read r' first hfirst]

variable [DecidableEq N]

theorem Anchors.step (h : s.Anchors cfg)
    (hanchor : AnchorOlder cfg s a) (hm : Moves cfg issued replica s a s') : s'.Anchors cfg := by
  cases hm with
  | tick ela =>
    have hd : ∀ c, s.Dates cfg c → Dates cfg { s with now := s.now + ela } c :=
      fun c hc => ⟨Int.le_trans hc.past (by simp), hc.older⟩
    exact ⟨h.read, fun b hb => hd _ (h.bucket b hb), fun i n c hi =>
      hd c (h.dated i n c hi)⟩
  | wipe ela =>
    have hle : s.now ≤ s.now + ela + 1 := by omega
    have hd : ∀ c, s.Dates cfg c →
        Dates cfg { s with bucket := none, now := s.now + ela + 1 } c :=
      fun c hc => ⟨Int.le_trans hc.past hle, hc.older⟩
    exact ⟨h.read, fun b hb => (by cases hb), fun i n c hi => hd c (h.dated i n c hi)⟩
  | recreate =>
    refine ⟨h.read, ?_, fun i n c hi => (h.dated i n c hi).of_eq rfl rfl rfl⟩
    rintro _ ⟨⟩
    refine ⟨Int.le_refl _, fun han he => ?_⟩
    obtain ⟨entry, hmem, -⟩ := he
    exact hanchor han (List.ne_nil_of_mem hmem)
  | expire nonce bucket time hu _ _ | stray nonce bucket hu _ =>
    exact h.setBucket hu rfl
  | stamp _ r clo rep => exact h.stamp r clo rep
  | stampAndBind _ _ _ clo rep => exact (h.stamp _ clo rep).goto (by simp)
  | bind a i nonce hpc | recordUnique i nonce clo hpc _ | ended a i => exact h.goto (by simp)
  | create i nonce bucket _ hu =>
    have hd : ∀ c, s.Dates cfg c → Dates cfg { s with
        bucket := some (bucket.put nonce s.now)
        recorded := (nonce, s.now) :: s.recorded } c := fun c hc => by
      refine hc.of_le (Int.le_refl _) (fun _ => id) fun entry hmem => ?_
      obtain rfl | hmem := List.mem_cons.1 hmem
      · exact .inr (Int.le_refl _)
      · exact .inl hmem
    refine Anchors.goto (s := { s with
      bucket := some (bucket.put nonce s.now)
      recorded := (nonce, s.now) :: s.recorded })
      ⟨h.read, ?_, fun i n c hi => hd c (h.dated i n c hi)⟩ (by simp)
    rintro _ ⟨⟩
    exact hd _ (h.bucket bucket hu)
  | dateCreated _ _ bucket _ hu =>
    apply h.goto
    rintro _ _ ⟨⟩
    exact h.bucket bucket hu
  | fresh i =>
    have hidle : (s.goto i .idle).Anchors cfg := h.goto (by simp)
    exact ⟨hidle.read, fun b hb => (hidle.bucket b hb).of_eq rfl rfl rfl,
      fun j n c hj => (hidle.dated j n c hj).of_eq rfl rfl rfl⟩
  | stutter => exact h

structure Sound (cfg : ReplayGuardConfig) (issued : N → Int) (s : ReplayRun N ρ ι) : Prop where
  ledger : s.Ledger cfg issued
  once : s.Once
  anchors : s.Anchors cfg

omit [DecidableEq ι] [DecidableEq ρ] [DecidableEq N] in
lemma Sound.start (now : Int) : (start now : ReplayRun N ρ ι).Sound cfg issued where
  ledger := ⟨by simp [ReplayRun.start], by simp [ReplayRun.start, GuardPc.wants],
    by simp [ReplayRun.start]⟩
  once := ⟨by simp [ReplayRun.start, GuardPc.holds], by simp [ReplayRun.start],
    by simp [ReplayRun.start, GuardPc.holds], by simp [ReplayRun.start, GuardPc.holds], .nil⟩
  anchors := ⟨by simp [ReplayRun.start], by simp [ReplayRun.start], by simp [ReplayRun.start]⟩

lemma Sound.step (h : s.Sound cfg issued)
    (httl : cfg.maxAge + cfg.verifierFutureTolerance + 2 * clockDriftAllowance < cfg.ttl)
    (hr : Prompt cfg issued s a) (hanchor : AnchorOlder cfg s a)
    (ht : (system cfg issued replica).step s a = some s') : s'.Sound cfg issued := by
  have hm : Moves cfg issued replica s a s' := moves_of_step ht
  exact ⟨h.ledger.step hm, h.once.step h.ledger h.anchors.ruled httl hr hm,
    h.anchors.step hanchor hm⟩

/-- Without an anchor, no nonce is answered fresh twice. -/
theorem fresh_nodup_of_not_anchored {as : List (ReplayAct N ρ ι)} {now : Int}
    (hanchored : cfg.anchored = false)
    (httl : cfg.maxAge + cfg.verifierFutureTolerance + 2 * clockDriftAllowance < cfg.ttl)
    (hrun : ((system cfg issued replica).guard (Prompt cfg issued)).run (start now) as = some s) :
    s.fresh.Nodup := by
  suffices ho : s.Sound cfg issued from ho.once.nodup
  refine run_guard_invariant _ (fun s a s' h hr ht => ?_) (.start now) hrun
  refine h.step httl hr ?_ ht
  cases a <;> simp [AnchorOlder, hanchored]

/-- With an anchor, no nonce is answered fresh twice if the anchor is older than the buckets that
replace lost ones. -/
theorem fresh_nodup_of_anchorOlder {as : List (ReplayAct N ρ ι)} {now : Int}
    (httl : cfg.maxAge + cfg.verifierFutureTolerance + 2 * clockDriftAllowance < cfg.ttl)
    (hrun : ((system cfg issued replica).guard fun s a =>
      Prompt cfg issued s a ∧ AnchorOlder cfg s a).run (start now) as = some s) :
    s.fresh.Nodup := by
  suffices ho : s.Sound cfg issued from ho.once.nodup
  refine run_guard_invariant _ (fun s a s' h ⟨hr, hanchor⟩ ht => ?_)
    (.start now) hrun
  exact h.step httl hr hanchor ht

end Steps

/-! ### Runs of two calls -/

def minuteConfig (ttl : Int) (anchored : Bool) (hpos : 0 < ttl) : ReplayGuardConfig where
  ttl := ttl
  verifierFutureTolerance := 5000000
  maxAge := 60000000
  anchored := anchored
  ttl_pos := hpos
  tolerance_nonneg := by decide

def minuteIssued (issued : Int) : Unit → Int := fun _ => issued

def callActs (i : Fin 2) (clock : Int) : List (ReplayAct Unit (Fin 2) (Fin 2)) :=
  [.recordUnique i () clock, .readAnchor i clock true, .create i, .dateCreated i, .answer i]

def expiredActs : List (ReplayAct Unit (Fin 2) (Fin 2)) :=
  [.recreate, .tick 20000000] ++ callActs 0 25000000 ++ [.tick 65000000, .expire ()] ++
    callActs 1 85000000

def wipedActs (accepted wiped : Nat) : List (ReplayAct Unit (Fin 2) (Fin 2)) :=
  [.recreate, .tick accepted] ++ callActs 0 accepted ++ [.wipe wiped, .recreate] ++
    callActs 1 (accepted + wiped)

/-- A time to live of the whole accept window is too short: the first call may be made on a clock
that is ahead. -/
theorem fresh_twice_expiredActs :
    ∃ s, ((system (minuteConfig 65000000 false (by decide)) (minuteIssued 30000000) id).guard
        (Prompt (minuteConfig 65000000 false (by decide)) (minuteIssued 30000000))).run (start 0)
        expiredActs = some s ∧ ¬ s.fresh.Nodup :=
  exists_run_of_any _ rfl

theorem fresh_nodup_wipedActs :
    ∃ s, ((system (minuteConfig 120000000 false (by decide)) (minuteIssued 20000000) id).guard
        (Prompt (minuteConfig 120000000 false (by decide)) (minuteIssued 20000000))).run (start 0)
        (wipedActs 20000000 10000000) = some s ∧ s.fresh = [()] ∧ s.fresh.Nodup := by
  exact exists_run_and _ rfl fun s hr _ => fresh_nodup_of_not_anchored rfl (by decide) hr

/-- The broker restarts two seconds after the first boot: the bucket that replaces the lost one is
taken for the first. -/
theorem fresh_twice_wipedAfterBoot :
    ∃ s, ((system (minuteConfig 120000000 true (by decide)) (minuteIssued 1000000) id).guard
        (Prompt (minuteConfig 120000000 true (by decide)) (minuteIssued 1000000))).run (start 0)
        (wipedActs 1000000 1000000) = some s ∧ ¬ s.fresh.Nodup :=
  exists_run_of_any _ rfl

theorem fresh_nodup_wipedLater :
    ∃ s, ((system (minuteConfig 120000000 true (by decide)) (minuteIssued 1000000) id).guard
        fun s a => Prompt (minuteConfig 120000000 true (by decide)) (minuteIssued 1000000) s a ∧
          AnchorOlder (minuteConfig 120000000 true (by decide)) s a).run (start 0)
        (wipedActs 1000000 10000000) = some s ∧ s.fresh = [()] ∧ s.fresh.Nodup := by
  exact exists_run_and _ rfl fun s hr _ => fresh_nodup_of_anchorOlder (by decide) hr

end ReplayRun

end ThreeTears
