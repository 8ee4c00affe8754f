import ThreeTears.Collections.AnswerSteps

/-!
# Answers of retired versions

A call that found no answer under its build lock when its version was retired already computes one
that no retirement looks for, so it must not be cut off before it has taken its answer back.
-/

namespace ThreeTears

open List Option StepSystem AnswerRun

namespace AnswerRun

variable {V D S ι : Type*} [DecidableEq V] [DecidableEq D] [DecidableEq S] [DecidableEq ι]
  {κ : AnswerKeys V D S} {s s' : AnswerRun V D S ι} {v : V} {d : D} {i : ι}

/-! ### Runs -/

variable {c : AnswerCall V D S} (h : Inv κ s)
include h

variable (hc : s.calls i = some c)
include hc

omit [DecidableEq S] in
lemma Inv.lockStep (ht : s.lockStep i c = some s') : Inv κ s' := by
  match c, hc, ht with
  | .answer v d (.waiting looked), hc, ht =>
    simp only [AnswerRun.lockStep] at ht
    split_ifs at ht with hfree
    cases ht
    have hi : Named κ s v d ∨ s.retired κ v := h.fits hc
    refine h.of_lock (.of_call rfl rfl rfl rfl ?_) hfree rfl fun c hc' => ?_
    · rw [hc]
      exact .of_ran nofun rfl nofun
    cases hc'
    exact hi
  | .retire sco (.pausing pass x left handled d), hc, ht =>
    simp only [AnswerRun.lockStep] at ht
    split_ifs at ht with hfree
    cases ht
    have hi : RetireFits κ s sco (.paused pass x left handled d) := h.fits hc
    have hm : Moved κ (some i) s ((s.setLock pass.version d (some i)).setCall i
        (some (.retire sco (.paused pass x left handled d)))) :=
      .of_call rfl rfl rfl rfl (.retire hc (plain_retire _ _))
    refine h.of_lock hm hfree rfl fun c hc' => ?_
    cases hc'
    exact RetireFits.moved hi hm

omit [DecidableEq D] [DecidableEq S] in
lemma Inv.heldStep (ht : s.heldStep i c = some s') : Inv κ s' := by
  match c, hc, ht with
  | .retire sco (.pausing pass x left handled d), hc, ht =>
    cases ht
    have hi : RetireFits κ s sco (.digests pass x left handled) := h.fits hc
    exact h.retireTo hc rfl hi

omit [DecidableEq D] [DecidableEq S] in
lemma Inv.versionStep {old : Int} (ht : s.versionStep i v old c = some s') : Inv κ s' := by
  match c, hc, ht with
  | .retire sco (.versions todo), hc, ht =>
    simp only [AnswerRun.versionStep] at ht
    split_ifs at ht with hmem
    cases ht
    have hi : RetireFits κ s sco (.versions todo) := h.fits hc
    exact h.retireTo hc rfl ⟨fun e he => hi e (mem_of_mem_erase he), hi _ hmem,
      fun _ d hd => absurd (mem_finRange _) hd⟩

omit [DecidableEq S] in
lemma Inv.digestStep (ht : s.digestStep i d c = some s') : Inv κ s' := by
  match c, hc, ht with
  | .retire sco (.digests pass x left handled), hc, ht =>
    simp only [AnswerRun.digestStep] at ht
    split_ifs at ht
    cases ht
    exact h.clearAnswer hc d

lemma Inv.goStep (he : ¬s.seeds c) (ht : s.goStep κ i c = some s') : Inv κ s' := by
  match c, hc, ht with
  | .answer v d .recordVersion, hc, ht => exact h.recordVersion hc ht
  | .answer v d .recordDigest, hc, ht => exact h.recordDigest hc ht
  | .answer v d .look, hc, ht => exact h.look hc ht
  | .answer v d (.waiting _), hc, ht => exact h.waiting hc ht
  | .answer v d (.holding _), hc, ht => exact h.holding hc ht
  | .answer v d (.computing _ _), hc, ht => exact h.computing hc ht
  | .answer v d (.releasing _ _), hc, ht => exact h.releasing hc ht
  | .answer v d (.seeding _ _), hc, ht => exact h.seeding hc (by simpa [seeds] using he) ht
  | .answer v d (.confirming _), hc, ht => exact h.confirming hc ht
  | .answer v d (.takingBack _), hc, ht => exact h.takingBack hc ht
  | .answer v d .dropping, hc, ht => exact h.dropping hc ht
  | .retire sco (.raising _), hc, ht => exact h.raising hc ht
  | .retire sco (.versions []), hc, ht =>
    cases ht
    exact h.versionsDone hc
  | .retire sco (.shards _), hc, ht => exact h.shards hc ht
  | .retire sco (.digests _ _ [] _), hc, ht => exact h.digestsDone hc ht
  | .retire sco (.paused _ _ _ _ _), hc, ht => exact h.paused hc ht
  | .retire sco (.resuming _ _ _ _ _), hc, ht => exact h.resuming hc ht

omit hc

omit [DecidableEq D] [DecidableEq S] in
lemma Inv.begin (hc : Plain (some c))
    (hl : c.locked = none) (hi : ∀ s' : AnswerRun V D S ι, CallFits κ s' c)
    (ht : s.begin i c = some s') : Inv κ s' := by
  rw [AnswerRun.begin] at ht
  split_ifs at ht with hfree
  cases ht
  refine h.of_call (.of_plain (hfree ▸ plain_none) hc) ?_ fun c' hc' => ?_
  · rw [bind_some, hl]
    nofun
  cases hc'
  exact hi _

omit [DecidableEq D] [DecidableEq S] in
lemma Inv.cut (ho : ∀ c ∈ s.calls i, c.ran ≠ some false) : Inv κ (s.setCall i none) := by
  refine h.of_call ⟨by simp, fun v d hr => ?_, by simp⟩ nofun nofun
  obtain ⟨pc, hc, hr⟩ := hr
  exact absurd hr (ho _ hc)

omit [DecidableEq D] [DecidableEq S] [DecidableEq ι] in
lemma Inv.quiet {t : AnswerRun V D S ι} (hcs : t.calls = s.calls)
    (hr : t.rows = s.rows) (hh : t.shards = s.shards) (ht : t.touched = s.touched)
    (hl : ∀ {i c v d}, s.calls i = some c → c.locked = some (v, d) → t.locks v d = some i)
    (hsa : ∀ v d, (t.answers v d).present → (s.answers v d).present)
    (ho : ∀ v d, (s.answers v d).present → (t.answers v d).present ∨ s.retired κ v) : Inv κ t := by
  have he : ∀ v, s.retired κ v → t.retired κ v := fun v hv => by
    rw [retired, hr]
    exact hv
  have hm : Moved κ none s t := by
    refine ⟨fun j _ => by rw [hcs], he, fun v hv => .inl ?_, fun v d hd => .inl ?_,
      fun v d hp => .inl (hsa v d hp), ho, ?_, ?_, ?_⟩
    · rw [HasVersion, hr]
      exact hv
    · rw [HasDigest, hh]
      exact hd
    all_goals rintro _ ⟨⟩
  exact h.moved hm (by rw [hcs]; exact hl) (by rw [hr]; exact h.members)
    (fun hmem => he _ (h.touched (ht ▸ hmem))) (by rintro _ ⟨⟩)

omit [DecidableEq D] [DecidableEq S] [DecidableEq ι] h in
lemma Inv.start : Inv κ (start : AnswerRun V D S ι) where
  locks := nofun
  members := nofun
  fits := nofun
  touched := nofun
  named := nofun

lemma Inv.step {a : AnswerAct V D S ι} (ho : s.Sheltered a)
    (hst : s.step κ a = some s') : Inv κ s' := by
  match a, ho, hst with
  | .answer i v d, _, hst =>
    exact h.begin (c := .answer v d .recordVersion) (plain_answer nofun rfl nofun) rfl
      (fun _ => trivial) hst
  | .retire i sco ord, _, hst =>
    exact h.begin (c := .retire sco (.raising ord)) (plain_retire _ _) rfl
      (fun _ => trivial) hst
  | .go i, ho, hst =>
    obtain ⟨c, hc, hst⟩ := bind_eq_some_iff.1 hst
    exact h.goStep hc (ho c hc) hst
  | .lock i, _, hst =>
    obtain ⟨c, hc, hst⟩ := bind_eq_some_iff.1 hst
    exact h.lockStep hc hst
  | .held i, _, hst =>
    obtain ⟨c, hc, hst⟩ := bind_eq_some_iff.1 hst
    exact h.heldStep hc hst
  | .version i v old, _, hst =>
    obtain ⟨c, hc, hst⟩ := bind_eq_some_iff.1 hst
    exact h.versionStep hc hst
  | .digest i d, _, hst =>
    obtain ⟨c, hc, hst⟩ := bind_eq_some_iff.1 hst
    exact h.digestStep hc hst
  | .cut i, ho, hst =>
    cases hst
    exact h.cut ho
  | .lapse v d, _, hst =>
    simp only [AnswerRun.step] at hst
    split_ifs at hst with hla
    cases hst
    refine h.quiet rfl rfl rfl rfl (fun {i c v' d'} hc hl => ?_) (fun _ _ => id)
      fun _ _ => .inl
    rw [locks_setLock, if_neg]
    · exact h.locks hc hl
    rintro ⟨rfl, rfl⟩
    rw [h.locks hc hl] at hla
    simp [hc, hl] at hla
  | .purge v d, _, hst =>
    simp only [AnswerRun.step] at hst
    split_ifs at hst with ht
    cases hst
    refine h.quiet rfl rfl rfl rfl h.locks (fun v' d' hr => ?_) fun v' d' hr => ?_
    · rw [answers_purged] at hr
      split_ifs at hr
      exact hr
    rw [answers_purged]
    split_ifs with hkey
    · exact .inr (hkey.1 ▸ h.touched ht)
    · exact .inl hr
  | .purgeShard v x, ho, hst =>
    simp only [AnswerRun.step] at hst
    split_ifs at hst
    cases hst
    refine h.quiet rfl rfl ?_ rfl h.locks (fun _ _ => id) fun _ _ => .inl
    funext v' x'
    rw [shards_setShard]
    split_ifs with hkey
    · rw [hkey.1, hkey.2]
      exact Eq.symm ho
    · rfl

omit h

lemma inv_of_run {as : List (AnswerAct V D S ι)}
    (hr : ((system κ).guard Sheltered).run start as = some s) : Inv κ s := by
  refine run_guard_invariant _ (I := Inv κ) (fun s a s' h ho ht => ?_) .start hr
  exact h.step ho ht

/-! ### A retirement on its own -/

def IsOf (i : ι) : AnswerAct V D S ι → Prop
  | .go j | .lock j | .held j | .version j _ _ | .digest j _ => j = i
  | .answer .. | .retire .. | .cut _ | .lapse .. | .purge .. | .purgeShard .. => False

variable (κ) in
/-- The key is among those a retirement has yet to clear, in the pass at hand or a later one. -/
def Ahead (v : V) (d : D) (pass : ClearPass V) (x : Fin 16) (left handled : List D) : Prop :=
  ((v, κ.order v) ∈ pass.todo ∨
    pass.version = v ∧ (κ.shard d ∈ pass.shards ∨ x = κ.shard d ∧ d ∈ left)) ∧
  (pass.version = v → d ∉ handled)

variable (κ) in
def Pending (s : AnswerRun V D S ι) (v : V) (d : D) : RetirePc V D → Prop
  | .raising order => κ.order v < order ∧ HasVersion κ s v
  | .versions todo => (v, κ.order v) ∈ todo
  | .shards pass => (v, κ.order v) ∈ pass.todo ∨ pass.version = v ∧ κ.shard d ∈ pass.shards
  | .digests pass x left handled | .pausing pass x left handled _
  | .paused pass x left handled _ => Ahead κ v d pass x left handled
  | .resuming pass x left handled d' => Ahead κ v d pass x left (handled ++ [d'])

variable (κ) in
/-- An answer that is still there is named in its shard and ahead of the retirement. -/
def Pursued (i : ι) (v : V) (d : D) (s : AnswerRun V D S ι) : Prop :=
  (s.answers v d).present → HasDigest κ s v d ∧
    ∃ rpc, s.calls i = some (.retire (κ.scope v) rpc) ∧ Pending κ s v d rpc

lemma Pursued.retireStep {rpc : RetirePc V D} (h : Pursued κ i v d s)
    (hc : s.calls i = some (.retire (κ.scope v) rpc))
    (hst : s.retireStep i (κ.scope v) rpc = some s') : Pursued κ i v d s' := by
  have he : (s.answers v d).present → HasDigest κ s v d ∧ Pending κ s v d rpc := fun hp => by
    obtain ⟨hd, rpc', hc', he⟩ := h hp
    cases hc.symm.trans hc'
    exact ⟨hd, he⟩
  clear h
  intro hr
  match rpc, he, hst with
  | .raising ord, he, hst =>
    cases hst
    obtain ⟨hd, hlt, hve⟩ := he hr
    exact ⟨hd, _, calls_setCall_self .., VersionsRow.mem_taken.2 ⟨hve, hlt⟩⟩
  | .versions [], he, hst =>
    cases hst
    cases (he hr).2
  | .shards pass, he, hst =>
    simp only [AnswerRun.retireStep] at hst
    split at hst <;> rename_i hsh <;> rw [Option.some.injEq] at hst <;> subst hst
    · have hp : (s.answers v d).present := by split_ifs at hr <;> exact hr
      obtain ⟨hd, ht | hve⟩ := he hp
      · refine ⟨?_, _, calls_setCall_self .., ht⟩
        split_ifs <;> exact hd
      rw [hsh] at hve
      cases hve.2
    rename_i x xs
    obtain ⟨hd, hah⟩ := he hr
    refine ⟨hd, _, calls_setCall_self .., hah.imp_right fun h => ⟨h.1, ?_⟩, by simp⟩
    obtain ⟨hv, hx⟩ := h
    rw [hsh, mem_cons] at hx
    rcases hx with hx | hx
    · refine .inr ⟨hx.symm, ?_⟩
      rw [hv, ← hx]
      exact hd
    · exact .inl hx
  | .digests pass x [] handled, he, hst =>
    simp only [AnswerRun.retireStep, Option.some.injEq] at hst
    subst hst
    rw [touchShard_eq] at hr ⊢
    obtain ⟨hd, hah, hh⟩ := he hr
    refine ⟨?_, _, calls_setCall_self .., hah.imp_right fun h => ⟨h.1, ?_⟩⟩
    · show d ∈ ((s.setShard _ _ _).shards v (κ.shard d)).getD []
      rw [shards_setShard]
      split_ifs with hkey
      · refine DigestShard.mem_dropHandled.2 ⟨hh hkey.1.symm, ?_⟩
        rw [← hkey.1, ← hkey.2]
        exact hd
      · exact hd
    · exact h.2.resolve_right fun hx => by cases hx.2
  | .paused pass x left handled d', he, hst =>
    cases hst
    rw [clearPresent_eq] at hr ⊢
    obtain ⟨hp, hkey⟩ := present_deletePresent.1 hr
    obtain ⟨hd, hah, hh⟩ := he hp
    refine ⟨hd, _, calls_setCall_self .., hah, fun hv hmem => ?_⟩
    rcases mem_append.1 hmem with hmem | hmem
    · exact hh hv hmem
    · exact hkey ⟨hv.symm, mem_singleton.1 hmem⟩
  | .resuming pass x left handled d', he, hst =>
    cases hst
    obtain ⟨hd, hah⟩ := he hr
    exact ⟨hd, _, calls_setCall_self .., hah⟩

omit [DecidableEq S] in
lemma Pursued.digestStep {pass : ClearPass V} {x : Fin 16} {left handled : List D} {d' : D}
    (h : Pursued κ i v d s)
    (hc : s.calls i = some (.retire (κ.scope v) (.digests pass x left handled))) :
    Pursued κ i v d (s.clearAnswer i (κ.scope v) pass x left handled d') := by
  intro hr
  rw [clearAnswer] at hr ⊢
  have hah : (s.answers v d).present → HasDigest κ s v d ∧ Ahead κ v d pass x left handled :=
    fun hp => by
      obtain ⟨hd, rpc, hc', hpe⟩ := h hp
      cases hc.symm.trans hc'
      exact ⟨hd, hpe⟩
  have he : Ahead κ v d pass x left handled → ¬(v = pass.version ∧ d = d') →
      Ahead κ v d pass x (left.erase d') handled := fun h hkey => by
    refine ⟨h.1.imp_right fun h => ⟨h.1, h.2.imp_right fun hx => ⟨hx.1, ?_⟩⟩, h.2⟩
    exact (mem_erase_of_ne fun hq => hkey ⟨h.1.symm, hq⟩).2 hx.2
  split_ifs at hr ⊢ with hd'
  · rw [clearPresent_eq] at hr ⊢
    obtain ⟨hp, hkey⟩ := present_deletePresent.1 hr
    obtain ⟨hd, hah⟩ := hah hp
    obtain ⟨hl, hh⟩ := he hah hkey
    refine ⟨hd, _, calls_setCall_self .., hl, fun hv hmem => ?_⟩
    rcases mem_append.1 hmem with hmem | hmem
    · exact hh hv hmem
    · exact hkey ⟨hv.symm, mem_singleton.1 hmem⟩
  obtain ⟨hd, hah⟩ := hah hr
  refine ⟨hd, _, calls_setCall_self .., he hah ?_⟩
  rintro ⟨rfl, rfl⟩
  exact hd' hr

omit [DecidableEq D] [DecidableEq S] in
lemma Pursued.to {t : AnswerRun V D S ι} {rpc rpc' : RetirePc V D} (h : Pursued κ i v d s)
    (hc : s.calls i = some (.retire (κ.scope v) rpc)) (han : t.answers = s.answers)
    (hh : t.shards = s.shards) (he : Pending κ s v d rpc → Pending κ
      (t.setCall i (some (.retire (κ.scope v) rpc'))) v d rpc') :
    Pursued κ i v d (t.setCall i (some (.retire (κ.scope v) rpc'))) := by
  intro hr
  have hp : (s.answers v d).present := by
    rw [← han]
    exact hr
  obtain ⟨hd, rpc₀, hc₀, hpending₀⟩ := h hp
  cases hc.symm.trans hc₀
  refine ⟨?_, _, calls_setCall_self .., he hpending₀⟩
  show d ∈ (t.shards v (κ.shard d)).getD []
  rw [hh]
  exact hd

lemma calls_retireStep {sco : S} {rpc : RetirePc V D} (ht : s.retireStep i sco rpc = some s') :
    s'.calls i = none ∨ ∃ rpc', s'.calls i = some (.retire sco rpc') := by
  match rpc, ht with
  | .raising _, ht =>
    cases ht
    exact .inr ⟨_, calls_setCall_self ..⟩
  | .versions [], ht =>
    cases ht
    exact .inl (calls_setCall_self ..)
  | .shards pass, ht =>
    simp only [retireStep] at ht
    split at ht <;> cases ht <;> exact .inr ⟨_, calls_setCall_self ..⟩
  | .digests _ _ [] _, ht =>
    cases ht
    exact .inr ⟨_, calls_setCall_self ..⟩
  | .paused .., ht =>
    cases ht
    exact .inr ⟨_, calls_setCall_self ..⟩
  | .resuming .., ht =>
    cases ht
    exact .inr ⟨_, calls_setCall_self ..⟩

lemma Pursued.step {a : AnswerAct V D S ι} (ha : IsOf i a)
    (hcall : ∀ c, s.calls i = some c → ∃ rpc, c = .retire (κ.scope v) rpc)
    (h : Pursued κ i v d s) (ht : s.step κ a = some s') :
    (∀ c, s'.calls i = some c → ∃ rpc, c = .retire (κ.scope v) rpc) ∧ Pursued κ i v d s' := by
  have he : ∀ {t : AnswerRun V D S ι} {rpc : RetirePc V D} (c : AnswerCall V D S),
      (t.setCall i (some (.retire (κ.scope v) rpc))).calls i = some c →
      ∃ rpc, c = .retire (κ.scope v) rpc := fun c hc => by
    rw [calls_setCall_self] at hc
    cases hc
    exact ⟨_, rfl⟩
  match a, ha, ht with
  | .go _, rfl, ht =>
    obtain ⟨c, hc, ht⟩ := bind_eq_some_iff.1 ht
    obtain ⟨rpc, rfl⟩ := hcall c hc
    refine ⟨fun c' hc' => ?_, h.retireStep hc ht⟩
    rcases calls_retireStep ht with hnone | ⟨rpc', hsome⟩
    · cases hnone.symm.trans hc'
    cases hsome.symm.trans hc'
    exact ⟨rpc', rfl⟩
  | .lock _, rfl, ht =>
    obtain ⟨c, hc, ht⟩ := bind_eq_some_iff.1 ht
    obtain ⟨rpc, rfl⟩ := hcall c hc
    match rpc, hc, ht with
    | .pausing pass x left handled d', hc, ht =>
      simp only [AnswerRun.lockStep] at ht
      split_ifs at ht
      cases ht
      exact ⟨he, h.to hc rfl rfl id⟩
  | .held _, rfl, ht =>
    obtain ⟨c, hc, ht⟩ := bind_eq_some_iff.1 ht
    obtain ⟨rpc, rfl⟩ := hcall c hc
    match rpc, hc, ht with
    | .pausing pass x left handled d', hc, ht =>
      cases ht
      exact ⟨he, h.to hc rfl rfl id⟩
  | .version _ v' old, rfl, ht =>
    obtain ⟨c, hc, ht⟩ := bind_eq_some_iff.1 ht
    obtain ⟨rpc, rfl⟩ := hcall c hc
    match rpc, hc, ht with
    | .versions todo, hc, ht =>
      simp only [AnswerRun.versionStep] at ht
      split_ifs at ht with hmem
      cases ht
      refine ⟨he, h.to hc rfl rfl fun hpe => ?_⟩
      by_cases hq : (v, κ.order v) = (v', old)
      · cases hq
        exact .inr ⟨rfl, mem_finRange _⟩
      · exact .inl ((mem_erase_of_ne hq).2 hpe)
  | .digest _ d', rfl, ht =>
    obtain ⟨c, hc, ht⟩ := bind_eq_some_iff.1 ht
    obtain ⟨rpc, rfl⟩ := hcall c hc
    match rpc, hc, ht with
    | .digests pass x left handled, hc, ht =>
      simp only [AnswerRun.digestStep] at ht
      split_ifs at ht
      cases ht
      refine ⟨?_, h.digestStep hc⟩
      rw [clearAnswer]
      split_ifs <;> exact he

/-- A retirement above the version's order that runs to its end on its own deletes what the index
names. -/
lemma Named.deleted {as : List (AnswerAct V D S ι)} {ord : Int} (h : Named κ s v d)
    (hfree : s.calls i = none) (ho : κ.order v < ord) (has : ∀ a ∈ as, IsOf i a)
    (hr : (system κ).run s (.retire i (κ.scope v) ord :: as) = some s')
    (hd : s'.calls i = none) : ¬(s'.answers v d).present := by
  rw [run_cons, bind_eq_some_iff] at hr
  obtain ⟨t, hb, hr⟩ := hr
  have ht : t = s.setCall i (some (.retire (κ.scope v) (.raising ord))) := by
    change s.begin i _ = some t at hb
    rw [begin, if_pos hfree] at hb
    exact (Option.some.inj hb).symm
  have hsa : (∀ c, t.calls i = some c → ∃ rpc, c = .retire (κ.scope v) rpc) ∧
      Pursued κ i v d t := by
    subst ht
    refine ⟨fun c hc => ?_, fun _ => ⟨h.2, _, calls_setCall_self .., ho, h.1⟩⟩
    rw [calls_setCall_self] at hc
    cases hc
    exact ⟨_, rfl⟩
  have he := run_invariant_mem _
    (I := fun s => (∀ c, s.calls i = some c → ∃ rpc, c = .retire (κ.scope v) rpc) ∧
      Pursued κ i v d s) (fun s a ha s' hs hst => hs.2.step (has a ha) hs.1 hst) hsa hr
  intro hpr
  obtain ⟨-, rpc, hc, -⟩ := he.2 hpr
  cases hd.symm.trans hc

/-! ### Stored answers -/

/-- In every run without such cuts, an answer in L2 is one that a running call will take back, its
version being retired, or the index names it and the next retirement above it deletes it. -/
theorem stored_answers_named {as : List (AnswerAct V D S ι)}
    (hrun : ((system κ).guard Sheltered).run start as = some s)
    (hpresent : (s.answers v d).present) : (∃ i early, Ran (s.calls i) v d early ∧ s.retired κ v) ∨
      Named κ s v d ∧ ∀ i order as' s', s.calls i = none → κ.order v < order →
        (∀ a ∈ as', IsOf i a) → (system κ).run s (.retire i (κ.scope v) order :: as') = some s' →
        s'.calls i = none → ¬(s'.answers v d).present := by
  rcases (inv_of_run hrun).named hpresent with hna | hsp
  · refine .inr ⟨hna, fun i order as' s' hfree ho has hr' hd => ?_⟩
    exact hna.deleted hfree ho has hr' hd
  obtain ⟨i, hr⟩ := hsp.minded hpresent
  exact .inl ⟨i, false, hr, hsp.retired⟩

def oneKey : AnswerKeys Unit Unit Unit where
  order _ := 0
  scope _ := ()
  shard _ := 0

/-- A call has recorded its version and digest and found no answer; a retirement takes the digest
for one without a writer, clears the shards and forgets the version; the call then takes the build
lock, computes and stores its answer. -/
def lateAnswer : List (AnswerAct Unit Unit Unit Bool) :=
  [.answer false () (), .go false, .go false, .go false, .retire true () 1, .go true,
    .version true () 0, .go true, .digest true (), .lock true, .go true, .go true, .go true] ++
  List.replicate 32 (.go true) ++ [.lock false, .go false, .go false]

theorem stored_answers_named_lateAnswer :
    ∃ s, ((system oneKey).guard Sheltered).run start lateAnswer = some s ∧
      (s.answers () ()).present ∧ ((∃ i early, Ran (s.calls i) () () early ∧ s.retired oneKey ()) ∨
        Named oneKey s () () ∧ ∀ i order as' s', s.calls i = none → oneKey.order () < order →
          (∀ a ∈ as', IsOf i a) →
          (system oneKey).run s (.retire i (oneKey.scope ()) order :: as') = some s' →
          s'.calls i = none → ¬(s'.answers () ()).present) := by
  exact exists_run_and _ (by decide +kernel) fun s hr hpr =>
    stored_answers_named hr hpr

/-- The call is cut off before it has confirmed: no call runs, and the index does not name the
answer's version. -/
theorem answer_leaked_lateAnswer :
    ∃ s, (system oneKey).run start (lateAnswer ++ [.cut false]) = some s ∧
      (s.answers () ()).present ∧ s.calls false = none ∧ s.calls true = none ∧
      ¬Named oneKey s () () := by
  have hr : ∃ s, (system oneKey).run start (lateAnswer ++ [.cut false]) = some s ∧
      (s.answers () ()).present ∧ s.calls false = none ∧ s.calls true = none ∧
      (VersionsRow.membersOf (s.rows ())).get () = none :=
    exists_run_of_any _ (by decide +kernel)
  obtain ⟨s, hr, hpr, hfa, ht, hg⟩ := hr
  refine ⟨s, hr, hpr, hfa, ht, fun hna => ?_⟩
  cases hg.symm.trans hna.1

end AnswerRun

end ThreeTears
