import ThreeTears.Collections.AnswerInvariant

/-!
# The steps of `answer` and `retire_older_than`

Each step of a call keeps the invariant of the answers' index. A call that begins to compute is
early if its version is not retired by then; until it has stored its answer, no retirement is done
with its digest.
-/

namespace ThreeTears

open VersionsRow Option DigestShard

namespace AnswerRun

variable {V D S ι : Type*} [DecidableEq V] [DecidableEq D] [DecidableEq S] [DecidableEq ι]
  {κ : AnswerKeys V D S} {s s' : AnswerRun V D S ι} {v : V} {d : D} {i : ι}
  {c' : Option (AnswerCall V D S)}

/-! ### A call of `answer` -/

variable (h : Inv κ s)
include h

lemma Inv.recordVersion (hc : s.calls i = some (.answer v d .recordVersion))
    (ht : s.answerStep κ i v d .recordVersion = some s') : Inv κ s' := by
  have hl : Plain (s.calls i) := hc ▸ plain_answer nofun rfl nofun
  simp only [answerStep, some.injEq] at ht
  subst ht
  split_ifs with hr
  · exact h.of_call (.of_plain hl plain_none) nofun nofun
  rw [Bool.not_eq_true] at hr
  have hg := get_addVersion hr
  refine h.of_moved (.of_row (.of_plain hl (plain_answer nofun rfl nofun))
    (fun ord ho => ?_) fun v' hscope hv' => .inl ?_) rfl rfl nofun
    (members_setRow h fun {v' ord} hv' => ?_) h.touched fun c hc' => ?_
  · rwa [refuses_addVersion]
  · by_cases hv : v' = v
    · exact hv ▸ hg
    rw [get_addVersion_of_ne hv, ← hscope]
    exact hv'
  · rcases eq_or_ne v' v with rfl | hv
    · exact ⟨rfl, some.inj (hv'.symm.trans hg)⟩
    rw [get_addVersion_of_ne hv] at hv'
    exact h.members hv'
  cases hc'
  left
  show (membersOf ((s.setRow _ _).rows _)).get v = _
  rw [rows_setRow, if_pos rfl]
  exact hg

lemma Inv.recordDigest (hc : s.calls i = some (.answer v d .recordDigest))
    (ht : s.answerStep κ i v d .recordDigest = some s') : Inv κ s' := by
  have hl : Plain (s.calls i) := hc ▸ plain_answer nofun rfl nofun
  have hi : HasVersion κ s v ∨ s.retired κ v := h.fits hc
  cases ht
  refine h.of_moved (.of_shard (.of_plain hl (plain_answer nofun rfl nofun))
    fun d' hd' hd => .inl ?_) rfl rfl nofun h.members h.touched fun c hc' => ?_
  · refine mem_addMember.2 (.inr ?_)
    rw [← hd']
    exact hd
  cases hc'
  refine hi.imp_left fun he => ⟨he, ?_⟩
  show d ∈ ((s.setShard _ _ _).shards _ _).getD []
  rw [shards_setShard, if_pos ⟨rfl, rfl⟩]
  exact mem_addMember.2 (.inl rfl)

lemma Inv.look (hc : s.calls i = some (.answer v d .look))
    (ht : s.answerStep κ i v d .look = some s') : Inv κ s' := by
  have hl : Plain (s.calls i) := hc ▸ plain_answer nofun rfl nofun
  have hi : Named κ s v d ∨ s.retired κ v := h.fits hc
  cases ht
  split_ifs
  · exact h.of_call (.of_plain hl plain_none) nofun nofun
  refine h.of_call (.of_plain hl (plain_answer nofun rfl nofun)) nofun fun c hc' => ?_
  cases hc'
  exact hi

variable {looked : Nat}

lemma Inv.waiting (hc : s.calls i = some (.answer v d (.waiting looked)))
    (ht : s.answerStep κ i v d (.waiting looked) = some s') : Inv κ s' := by
  have hl : Plain (s.calls i) := hc ▸ plain_answer nofun rfl nofun
  simp only [answerStep] at ht
  split_ifs at ht
  cases ht
  refine h.of_call (.of_plain hl (plain_answer nofun rfl nofun)) nofun fun c hc' => ?_
  cases hc'
  trivial

omit [DecidableEq D] [DecidableEq S] [DecidableEq ι] in
lemma Inv.retired_or_present {j : ι} (hj : Leaves (s.calls j) v d) :
    s.retired κ v ∨ (s.answers v d).present := by
  rcases hj with ⟨early, pc, hcall, hr⟩ | hcall
  · have hi : AnswerFits κ s v d pc := h.fits hcall
    cases pc with
    | releasing looked ran | seeding looked ran =>
      cases (hr : ran = some early)
      exact hi.1
    | confirming => exact hi.1
    | takingBack => exact .inl hi
    | recordVersion | recordDigest | look | waiting | holding | computing | dropping => cases hr
  · exact .inl (Spared.retired (h.fits hcall))

lemma Inv.holding (hc : s.calls i = some (.answer v d (.holding looked)))
    (ht : s.answerStep κ i v d (.holding looked) = some s') : Inv κ s' := by
  have hpl : Plain (s.calls i) := hc ▸ plain_answer nofun rfl nofun
  have hi : Named κ s v d ∨ s.retired κ v := h.fits hc
  cases ht
  split_ifs with hpr
  · refine h.of_call (.of_plain hpl (plain_answer nofun rfl nofun)) (by rw [hc]; exact id)
      fun c hc' => ?_
    cases hc'
    trivial
  refine h.of_call ⟨fun v' d' hco => ?_, fun v' d' hra => ?_, fun v' d' hl => ?_⟩
    (by rw [hc]; exact id) fun c hc' => ?_
  · obtain ⟨rfl, rfl, looked', hpc⟩ := computes_answer.1 hco
    rw [AnswerPc.computing.injEq] at hpc
    exact .inr (by simpa using hpc.2)
  · exact absurd (.inl ⟨false, hra⟩) (hpl.2 v' d')
  · simp [AnswerPc.ran] at hl
  cases hc'
  cases hr : s.retired κ v with
  | true => exact hr
  | false =>
    have ho : ¬s.retired κ v := by simp [hr]
    refine ⟨hi.resolve_right ho, hpr, fun j hj => ?_⟩
    rcases eq_or_ne j i with rfl | hji
    · rw [calls_setCall_self] at hj
      simp [AnswerPc.ran] at hj
    rw [calls_setCall_of_ne hji] at hj
    exact (h.retired_or_present hj).elim ho hpr

variable {early : Bool}

lemma Inv.computing (hc : s.calls i = some (.answer v d (.computing looked early)))
    (ht : s.answerStep κ i v d (.computing looked early) = some s') : Inv κ s' := by
  have ho : Computes (s.calls i) v d early := ⟨looked, hc⟩
  have hi : AnswerFits κ s v d (.computing looked early) := h.fits hc
  cases ht
  have he : ((s.push v d true).answers v d).present := by rw [answers_push, if_pos ⟨rfl, rfl⟩]
  refine h.of_moved (.of_calls rfl ⟨fun v' d' ho' => ?_, fun v' d' hr => ?_,
    fun v' d' hl => ?_⟩ (fun _ => id) (fun _ => .inl) (fun _ _ => .inl)
    (fun v' d' hpr => ?_) fun v' d' hpr => .inl ?_) rfl rfl (by rw [hc]; exact id)
    h.members h.touched fun c hc' => ?_
  · simp at ho'
  · rw [hc, ran_answer] at hr
    cases hr.2.2
  · obtain ⟨rfl, rfl, -⟩ := leaves_answer.1 hl
    exact .inr ⟨early, ho⟩
  · rw [answers_push] at hpr
    split_ifs at hpr with hkey
    · obtain ⟨rfl, rfl⟩ := hkey
      exact .inr ⟨early, ho, fun hlate => by simp [AnswerPc.ran, hlate]⟩
    · exact .inl hpr
  · rw [answers_push]
    split_ifs
    · rfl
    · exact hpr
  cases hc'
  refine ⟨.inr he, fun hlate => ?_⟩
  subst hlate
  exact hi

omit [DecidableEq S] in
lemma Inv.of_lock {v : V} {d : D}
    (hm : Moved κ (some i) s ((s.setLock v d (some i)).setCall i c')) (hfree : s.locks v d = none)
    (hl : c'.bind AnswerCall.locked = some (v, d))
    (hi : ∀ c, c' = some c → CallFits κ ((s.setLock v d (some i)).setCall i c') c) :
    Inv κ ((s.setLock v d (some i)).setCall i c') := by
  refine h.moved hm (fun {j c v' d'} hj hc => ?_) h.members
    (fun hmem => hm.retired _ (h.touched hmem)) fun j hj c hc => ?_
  · show (s.setLock v d (some i)).locks v' d' = some j
    rw [locks_setLock]
    obtain ⟨rfl, rfl⟩ | ⟨-, hj⟩ := of_update_eq hj
    · cases hc.symm.trans hl
      rw [if_pos ⟨rfl, rfl⟩]
    have hold := h.locks hj hc
    rw [if_neg]
    · exact hold
    rintro ⟨rfl, rfl⟩
    cases hfree.symm.trans hold
  cases hj
  rw [calls_setCall_self] at hc
  exact hi c hc

omit [DecidableEq S] in
lemma Inv.of_release (hm : Moved κ (some i) s ((s.setLock v d none).setCall i c'))
    (hh : (s.calls i).bind AnswerCall.locked = some (v, d)) (hl : c'.bind AnswerCall.locked = none)
    (hi : ∀ c, c' = some c → CallFits κ ((s.setLock v d none).setCall i c') c) :
    Inv κ ((s.setLock v d none).setCall i c') := by
  obtain ⟨c₀, hc₀, hh⟩ := bind_eq_some_iff.1 hh
  have hheld := h.locks hc₀ hh
  refine h.moved hm (fun {j c v' d'} hj hc => ?_) h.members
    (fun hmem => hm.retired _ (h.touched hmem)) fun j hj c hc => ?_
  · show (s.setLock v d none).locks v' d' = some j
    rw [locks_setLock]
    obtain ⟨rfl, rfl⟩ | ⟨hji, hj⟩ := of_update_eq hj
    · cases hc.symm.trans hl
    have hold := h.locks hj hc
    rw [if_neg]
    · exact hold
    rintro ⟨rfl, rfl⟩
    exact hji (some.inj (hold.symm.trans hheld))
  cases hj
  rw [calls_setCall_self] at hc
  exact hi c hc

lemma Inv.releasing {ran : Option Bool}
    (hc : s.calls i = some (.answer v d (.releasing looked ran)))
    (ht : s.answerStep κ i v d (.releasing looked ran) = some s') : Inv κ s' := by
  have hi : AnswerFits κ s v d (.releasing looked ran) := h.fits hc
  cases ht
  refine h.of_release (.of_call rfl rfl rfl rfl ?_) (by rw [hc]; rfl) rfl fun c hc' => ?_
  · rw [hc]
    exact .of_ran nofun rfl nofun
  cases hc'
  cases ran with
  | none => trivial
  | some early => exact hi

lemma Inv.seeding {ran : Option Bool} (hc : s.calls i = some (.answer v d (.seeding looked ran)))
    (hm : (s.answers v d).revision ≠ looked)
    (ht : s.answerStep κ i v d (.seeding looked ran) = some s') : Inv κ s' := by
  have hi : AnswerFits κ s v d (.seeding looked ran) := h.fits hc
  simp only [answerStep, if_neg hm, some.injEq] at ht
  subst ht
  cases ran with
  | none =>
    refine h.of_call (.of_plain ?_ plain_none) nofun nofun
    exact hc ▸ plain_answer nofun rfl nofun
  | some early =>
    refine h.of_call ?_ nofun fun c hc' => ?_
    · rw [hc]
      exact .of_ran nofun rfl nofun
    cases hc'
    exact hi

omit [DecidableEq D] [DecidableEq S] [DecidableEq ι] in
lemma Inv.confirmsRetired_of_retired (hr : s.retired κ v) : s.confirmsRetired κ v := by
  obtain ⟨floor, hl, hle⟩ := refuses_iff.1 hr
  rw [confirmsRetired]
  cases hrow : s.rows (κ.scope v) with
  | none => rfl
  | some row =>
    rw [hrow] at hl
    have hl : row.floor = some floor := hl
    simp only [hl, any_some, decide_eq_true_eq]
    cases hg : row.members.get v with
    | none => exact le_rfl
    | some order =>
      have hm : (membersOf (s.rows (κ.scope v))).get v = some order := by
        rw [hrow]
        exact hg
      rw [(h.members hm).2]
      exact hle

omit [DecidableEq D] [DecidableEq S] [DecidableEq ι] h in
lemma retired_of_confirmsRetired (he : HasVersion κ s v)
    (ho : s.confirmsRetired κ v) : s.retired κ v := by
  rw [HasVersion] at he
  rw [confirmsRetired] at ho
  cases hrow : s.rows (κ.scope v) with
  | none =>
    rw [hrow] at he
    cases he
  | some row =>
    rw [hrow] at he ho
    have hg : row.members.get v = some (κ.order v) := he
    rw [AnswerRun.retired, hrow]
    simpa [hg, refuses, floorOf] using ho

lemma Inv.confirming (hc : s.calls i = some (.answer v d (.confirming early)))
    (ht : s.answerStep κ i v d (.confirming early) = some s') : Inv κ s' := by
  obtain ⟨hk, hlate⟩ : AnswerFits κ s v d (.confirming early) := h.fits hc
  cases ht
  split_ifs with ho
  · refine h.of_call ?_ nofun fun c hc' => ?_
    · rw [hc]
      exact .of_ran nofun rfl nofun
    cases hc'
    rcases hk with hr | hpr
    · exact hr
    rcases h.named hpr with hna | hsp
    · exact retired_of_confirmsRetired hna.1 ho
    · exact hsp.retired
  refine h.of_call ⟨fun v' d' => ?_, fun v' d' hra => ?_, fun v' d' => ?_⟩ nofun nofun
  · simp
  · rw [hc, ran_answer] at hra
    obtain ⟨rfl, rfl, -⟩ := hra
    exact .inr (.inr fun hr => ho (h.confirmsRetired_of_retired hr))
  · simp

lemma Inv.takingBack (hc : s.calls i = some (.answer v d (.takingBack early)))
    (ht : s.answerStep κ i v d (.takingBack early) = some s') : Inv κ s' := by
  have hr : s.retired κ v := h.fits hc
  have hl : Leaves (s.calls i) v d := hc ▸ leaves_answer.2 ⟨rfl, rfl, .inl rfl⟩
  cases ht
  have hg : ¬((s.deletePresent v d).answers v d).present :=
    fun hpr => (present_deletePresent.1 hpr).2 ⟨rfl, rfl⟩
  have he := s.deletePresent_eq v d
  have hm : Moved κ (some i) s
      ((s.deletePresent v d).setCall i (some (.answer v d .dropping))) := by
    refine .of_calls (by rw [he]) ⟨fun v' d' ho => ?_, fun v' d' hra => ?_,
      fun v' d' hl' => ?_⟩ (fun v' => ?_) (fun v' => ?_) (fun v' d' => ?_)
      (fun v' d' hpr => ?_) fun v' d' hpr => ?_
    · simp at ho
    · rw [hc, ran_answer] at hra
      obtain ⟨rfl, rfl, -⟩ := hra
      exact .inr (.inl hg)
    · obtain ⟨rfl, rfl, -⟩ := leaves_answer.1 hl'
      exact .inl hl
    · rw [he]
      exact id
    · rw [he]
      exact .inl
    · rw [he]
      exact .inl
    · exact .inl (present_deletePresent.1 hpr).1
    by_cases hkey : v' = v ∧ d' = d
    · exact .inr (hkey.1 ▸ hr)
    · exact .inl (present_deletePresent.2 ⟨hpr, hkey⟩)
  refine h.of_moved hm (by rw [he]) (by rw [he]) nofun (by rw [he]; exact h.members)
    (by rw [he]; exact h.touched) fun c hc' => ?_
  cases hc'
  refine ⟨hm.retired v hr, fun j hj => ?_, fun hpr => absurd hpr hg⟩
  rcases eq_or_ne j i with rfl | hi
  · rw [calls_setCall_self] at hj
    simp at hj
  rw [calls_setCall_of_ne hi, he] at hj
  obtain ⟨looked, hj⟩ := hj
  have hfi : AnswerFits κ s v d (.computing looked true) := h.fits hj
  exact hfi.2.2 i hl

lemma Inv.dropping (hc : s.calls i = some (.answer v d .dropping))
    (ht : s.answerStep κ i v d .dropping = some s') : Inv κ s' := by
  have hsp : Spared κ s v d := h.fits hc
  cases ht
  rw [touchShard_eq]
  have hcall : CallMoves κ s s (s.calls i) none :=
    ⟨by simp, fun v' d' hr => by simp [hc, AnswerPc.ran] at hr, by simp⟩
  refine h.of_moved (.of_calls rfl { hcall with } (fun _ => id)
    (fun _ => .inl) (fun v' d' hi => ?_) (fun _ _ => .inl) fun _ _ => .inl) rfl rfl nofun
    h.members (fun {v' d'} hmem => ?_) nofun
  · show d' ∈ ((s.setShard _ _ _).shards v' (κ.shard d')).getD [] ∨ _
    rw [shards_setShard]
    split_ifs with hkey
    · obtain ⟨rfl, hh⟩ := hkey
      by_cases hd : d' = d
      · exact .inr (hd ▸ hsp)
      refine .inl (mem_removeMember.2 ⟨hd, ?_⟩)
      rw [← hh]
      exact hi
    · exact .inl hi
  rcases List.mem_cons.1 hmem with he | hmem
  · cases he
    exact hsp.retired
  · exact h.touched hmem

/-! ### A call of `retire_older_than` -/

variable {scope : S} {rpc : RetirePc V D}

omit [DecidableEq V] [DecidableEq D] [DecidableEq S] [DecidableEq ι] h in
lemma CallMoves.retire (hc : s.calls i = some (.retire scope rpc))
    (hc' : Plain c') : CallMoves κ s s' (s.calls i) c' :=
  .of_plain (hc ▸ plain_retire scope rpc) hc'

omit [DecidableEq D] [DecidableEq S] in
lemma Inv.of_retire {t : AnswerRun V D S ι}
    (hm : Moved κ (some i) s (t.setCall i (some (.retire scope rpc))))
    (hcs : t.calls = s.calls) (ho : t.locks = s.locks)
    (hl : ∀ {v d}, (AnswerCall.retire scope rpc).locked = some (v, d) →
      (s.calls i).bind AnswerCall.locked = some (v, d))
    (he : ∀ {scope v ord}, (membersOf (t.rows scope)).get v = some ord →
      κ.scope v = scope ∧ ord = κ.order v) (ht : ∀ {v d}, (v, d) ∈ t.touched → s.retired κ v)
    (hi : RetireFits κ s scope rpc) : Inv κ (t.setCall i (some (.retire scope rpc))) :=
  h.of_moved hm hcs ho hl he ht fun c hc => by
    cases hc
    exact RetireFits.moved hi hm

omit [DecidableEq D] [DecidableEq S] in
lemma Inv.retireTo {rpc rpc' : RetirePc V D} (hc : s.calls i = some (.retire scope rpc))
    (hl : (AnswerCall.retire scope rpc').locked = none) (hi : RetireFits κ s scope rpc') :
    Inv κ (s.setCall i (some (.retire scope rpc'))) :=
  h.of_retire (.of_call rfl rfl rfl rfl (.retire hc (plain_retire _ _))) rfl rfl
    (by rw [hl]; nofun) h.members h.touched hi

lemma Inv.raising {ord : Int} (hc : s.calls i = some (.retire scope (.raising ord)))
    (ht : s.retireStep i scope (.raising ord) = some s') : Inv κ s' := by
  simp only [retireStep, some.injEq] at ht
  subst ht
  refine h.of_moved (.of_row (.retire hc (plain_retire _ _))
    (fun _ hr => refuses_raiseFloor hr ord) fun v hscope hve => ?_)
    rfl rfl nofun (members_setRow h fun {v ord'} hg => ?_) h.touched fun c hc' => ?_
  · rw [membersOf_raiseFloor, ← hscope]
    exact .inl hve
  · rw [membersOf_raiseFloor] at hg
    exact h.members hg
  cases hc'
  intro e he
  obtain ⟨hg, hlt⟩ := mem_taken.1 he
  obtain ⟨hscope, ho⟩ := h.members hg
  refine ⟨hscope, ho, ?_⟩
  show refuses ((s.setRow _ _).rows _) _
  rw [rows_setRow, if_pos hscope, ← ho]
  exact refuses_raiseFloor_of_lt hlt _

omit [DecidableEq D] [DecidableEq S] in
lemma Inv.versionsDone (hc : s.calls i = some (.retire scope (.versions []))) :
    Inv κ (s.setCall i none) :=
  h.of_call (.retire hc plain_none) nofun nofun

variable {pass : ClearPass V} (hc : s.calls i = some (.retire scope (.shards pass)))
include hc

omit [DecidableEq D] in
lemma Inv.forget (hh : pass.shards = []) (he : pass.emptied) :
    Inv κ ((s.setRow scope (forgetVersion pass.version pass.older
      (s.rows scope))).setCall i (some (.retire scope (.versions pass.todo)))) := by
  have hi : PassFits κ s scope pass pass.shards := h.fits hc
  have hsp : ∀ d, Spared κ s pass.version d := fun d =>
    hi.emptied he d (by simp [hh])
  refine h.of_retire (.of_row (.retire hc (plain_retire _ _)) (fun _ => ?_)
    fun v hscope hve => ?_) rfl rfl nofun (members_setRow h fun hg => ?_) h.touched
    hi.todo
  · rw [refuses_forgetVersion]
    exact id
  · by_cases hv : v = pass.version
    · exact .inr (hv ▸ hsp)
    rw [get_forgetVersion_of_ne hv, ← hscope]
    exact .inl hve
  · exact h.members (get_of_get_forgetVersion hg)

lemma Inv.shards (ht : s.retireStep i scope (.shards pass) = some s') : Inv κ s' := by
  have hi : PassFits κ s scope pass pass.shards := h.fits hc
  simp only [retireStep] at ht
  split at ht <;> rename_i hh
  · rw [some.injEq] at ht
    subst ht
    split_ifs with he
    · exact h.forget hc hh he
    · exact h.retireTo hc rfl hi.todo
  rename_i x xs
  rw [some.injEq] at ht
  subst ht
  rw [hh] at hi
  exact h.retireTo hc rfl ⟨{ hi with }, nofun⟩

omit hc

variable {x : Fin 16}

omit [DecidableEq S] [DecidableEq ι] in
lemma Inv.spared_of_emptied {handled : List D}
    (hr : s.retired κ v) (hh : ∀ d ∈ handled, Spared κ s v d)
    (he : (DigestShard.dropHandled handled (s.shards v x)).1 = true)
    (hx : κ.shard d = x) : Spared κ s v d := by
  have hna : Named κ s v d → Spared κ s v d := by
    rintro ⟨-, hi⟩
    by_cases hd : d ∈ handled
    · exact hh d hd
    rw [HasDigest, hx] at hi
    exact absurd (mem_dropHandled.2 ⟨hd, hi⟩)
      (dropHandled_emptied he d)
  refine ⟨hr, fun j hj => ?_, fun hpr => ?_⟩
  · obtain ⟨looked, hcall⟩ := hj
    have ho : AnswerFits κ s v d (.computing looked true) := h.fits hcall
    exact (hna ho.1).not_early j ⟨looked, hcall⟩
  · exact ((h.named hpr).elim hna id).minded hpr

lemma Inv.digestsDone {handled : List D}
    (hc : s.calls i = some (.retire scope (.digests pass x [] handled)))
    (ht : s.retireStep i scope (.digests pass x [] handled) = some s') : Inv κ s' := by
  obtain ⟨hi, hh⟩ : RetireFits κ s scope (.digests pass x [] handled) := h.fits hc
  simp only [retireStep, some.injEq] at ht
  subst ht
  rw [touchShard_eq]
  refine h.of_retire (.of_calls rfl (.retire hc (plain_retire _ _)) (fun _ => id) (fun _ => .inl)
    (fun v' d' hdi => ?_) (fun _ _ => .inl) fun _ _ => .inl) rfl rfl nofun h.members h.touched
    ⟨hi.todo, hi.taken, fun he d hd => ?_⟩
  · show d' ∈ ((s.setShard _ _ _).shards v' (κ.shard d')).getD [] ∨ _
    rw [shards_setShard]
    split_ifs with hkey
    · obtain ⟨rfl, hsh⟩ := hkey
      by_cases hd : d' ∈ handled
      · exact .inr (hh d' hd)
      refine .inl (mem_dropHandled.2 ⟨hd, ?_⟩)
      rw [← hsh]
      exact hdi
    · exact .inl hdi
  rw [Bool.and_eq_true] at he
  by_cases hx : κ.shard d = x
  · exact h.spared_of_emptied hi.taken.retired hh he.2 hx
  · exact hi.emptied he.1 d fun hmem => (List.mem_cons.1 hmem).elim hx hd

omit [DecidableEq S] [DecidableEq ι] h in
lemma clearPresent_eq (s : AnswerRun V D S ι) (v : V) (d : D) : s.clearPresent v d = { s with
      answers := (s.deletePresent v d).answers
      sequence := (s.deletePresent v d).sequence
      touched := (s.clearPresent v d).touched } := by
  rw [clearPresent]
  split_ifs with hr
  · rw [touch, deletePresent_eq]
  · rw [deletePresent, if_neg hr]

omit [DecidableEq S] [DecidableEq ι] h in
lemma mem_touched_clearPresent {v v' : V} {d d' : D}
    (h : (v', d') ∈ (s.clearPresent v d).touched) : (v', d') ∈ s.touched ∨ v' = v := by
  rw [clearPresent] at h
  split_ifs at h
  · rw [touch, deletePresent_eq] at h
    rcases List.mem_cons.1 h with he | h
    · cases he
      exact .inr rfl
    · exact .inl h
  · exact .inl h

omit [DecidableEq S] in
lemma Inv.clearPresent (hc : s.calls i = some (.retire scope rpc)) (hr : s.retired κ v)
    (he : ∀ j, ¬Computes (s.calls j) v d true) {rpc' : RetirePc V D}
    (hl : ∀ {v d}, (AnswerCall.retire scope rpc').locked = some (v, d) →
      (s.calls i).bind AnswerCall.locked = some (v, d))
    (hi : ∀ s' : AnswerRun V D S ι, Moved κ (some i) s s' → Spared κ s' v d →
      RetireFits κ s' scope rpc') :
    Inv κ ((s.clearPresent v d).setCall i (some (.retire scope rpc'))) := by
  have hq := s.clearPresent_eq v d
  have hm : Moved κ (some i) s
      ((s.clearPresent v d).setCall i (some (.retire scope rpc'))) := by
    refine .of_calls (by rw [hq]) (.retire hc (plain_retire _ _)) (fun v' => ?_) (fun v' => ?_)
      (fun v' d' => ?_) (fun v' d' hpr => ?_) fun v' d' hpr => ?_
    · rw [hq]
      exact id
    · rw [hq]
      exact .inl
    · rw [hq]
      exact .inl
    · rw [hq] at hpr
      exact .inl (present_deletePresent.1 hpr).1
    rw [hq]
    by_cases hkey : v' = v ∧ d' = d
    · exact .inr (hkey.1 ▸ hr)
    · exact .inl (present_deletePresent.2 ⟨hpr, hkey⟩)
  refine h.of_moved hm (by rw [hq]) (by rw [hq]) hl (by rw [hq]; exact h.members)
    (fun {v' d'} hmem => ?_) fun c hc' => ?_
  · rcases mem_touched_clearPresent hmem with hmem | rfl
    · exact h.touched hmem
    · exact hr
  cases hc'
  refine hi _ hm ⟨hm.retired v hr, fun j hj => ?_, fun hpr => ?_⟩
  · rcases eq_or_ne j i with rfl | hji
    · rw [calls_setCall_self] at hj
      simp at hj
    rw [calls_setCall_of_ne hji, hq] at hj
    exact he j hj
  have hp' : ((s.clearPresent v d).answers v d).present := hpr
  rw [hq] at hp'
  exact absurd ⟨rfl, rfl⟩ (present_deletePresent.1 hp').2

variable {left handled : List D}

lemma Inv.paused (hc : s.calls i = some (.retire scope (.paused pass x left handled d)))
    (ht : s.retireStep i scope (.paused pass x left handled d) = some s') : Inv κ s' := by
  obtain ⟨hi, hh⟩ : RetireFits κ s scope (.paused pass x left handled d) := h.fits hc
  cases ht
  refine h.clearPresent hc hi.taken.retired (fun j hj => ?_) (by rw [hc]; exact id)
    fun s'' hm he => ⟨hi.moved hm, fun d' hd' => ?_⟩
  · -- the lock is the retirement's
    obtain ⟨looked, hj⟩ := hj
    have hlock : s.locks pass.version d = some j := h.locks hj rfl
    cases hlock.symm.trans (h.locks hc rfl)
    cases hj.symm.trans hc
  rcases List.mem_append.1 hd' with hd' | hd'
  · exact (hh d' hd').moved hm
  rw [List.mem_singleton.1 hd']
  exact he

lemma Inv.resuming (hc : s.calls i = some (.retire scope (.resuming pass x left handled d)))
    (ht : s.retireStep i scope (.resuming pass x left handled d) = some s') : Inv κ s' := by
  have hi : RetireFits κ s scope (.digests pass x left (handled ++ [d])) := h.fits hc
  cases ht
  have hm : Moved κ (some i) s ((s.setLock pass.version d none).setCall i
      (some (.retire scope (.digests pass x left (handled ++ [d]))))) :=
    .of_call rfl rfl rfl rfl (.retire hc (plain_retire _ _))
  refine h.of_release hm (by rw [hc]; rfl) rfl fun c hc' => ?_
  cases hc'
  exact RetireFits.moved hi hm

omit [DecidableEq S] in
lemma Inv.clearAnswer
    (hc : s.calls i = some (.retire scope (.digests pass x left handled))) (d : D) :
    Inv κ (s.clearAnswer i scope pass x left handled d) := by
  obtain ⟨hi, hh⟩ : RetireFits κ s scope (.digests pass x left handled) := h.fits hc
  rw [AnswerRun.clearAnswer]
  split_ifs with hr
  · refine h.clearPresent hc hi.taken.retired (fun j hj => ?_) nofun
      fun s'' hm he => ⟨hi.moved hm, fun d' hd' => ?_⟩
    · -- an early call has found no answer
      obtain ⟨looked, hj⟩ := hj
      have ho : AnswerFits κ s pass.version d (.computing looked true) := h.fits hj
      exact ho.2.1 hr
    rcases List.mem_append.1 hd' with hd' | hd'
    · exact (hh d' hd').moved hm
    rw [List.mem_singleton.1 hd']
    exact he
  · exact h.retireTo hc rfl ⟨hi, hh⟩

end AnswerRun

end ThreeTears
