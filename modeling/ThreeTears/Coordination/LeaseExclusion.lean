import ThreeTears.Coordination.LeaseExpiry

/-!
# Mutual exclusion of leases

Two handles that both count the lease their own, with a recorded expiry in the future, would both be
the writer of the one entry. A refresh that brings the entry's expiry forward breaks this: the
handle keeps the expiry it recorded.
-/

namespace ThreeTears

open Option StepSystem LeaseHandle

variable {T ι : Type*}

variable {now : Int} {kv : KvKey (LeaseEntry T ι)} {i : ι} {holder : T}
  {handle handle' : Option (LeaseHandle T)} {pc pc' : LeasePc T}
  {answer : KvAnswer (LeaseEntry T ι)}

section Resumes

variable {h h' : LeaseHandle T}

lemma recorded_handle (attempt : Attempt) (r : Nat) :
    (attempt.handle r : LeaseHandle T).recorded = attempt.now + attempt.ttl := by
  cases ho : attempt.hold <;> simp [recorded, Attempt.handle, ho]

variable (reason : LossReason)

lemma not_counts_tell : ¬ (h.tell reason).Counts := by
  rintro ⟨hl, -⟩
  cases hl

lemma follows_tell : Follows h (h.tell reason) :=
  ⟨id, le_rfl, fun _ hc => absurd hc (not_counts_tell reason)⟩

variable (hh : HandleTimely now kv i h)
include hh

lemma HandleTimely.tell : HandleTimely now kv i (h.tell reason) :=
  ⟨fun hc => absurd hc (not_counts_tell reason), hh.revision, hh.held⟩

lemma callTimely_idle : CallTimely now kv i holder (some h) .idle where
  timely h' he := Option.some.inj he ▸ hh
  point := trivial
  request req hrequest := by cases hrequest

lemma HandleTimely.of_revision (r : Nat) (inFlight : Option (Envelope T)) (hr : r ≤ kv.revision) :
    HandleTimely now kv i { h with revision := r, inFlight := inFlight } :=
  ⟨hh.covered, hr, hh.held⟩

omit hh

lemma follows_of_revision (r : Nat) (inFlight : Option (Envelope T)) (hr : h.revision ≤ r) :
    Follows h { h with revision := r, inFlight := inFlight } :=
  ⟨id, hr, fun _ hc => ⟨hc, rfl⟩⟩

/-- The call is over, with a handle that follows the one it had. -/
lemma HandleTimely.ends (hh : HandleTimely now kv i h') (hf : Follows h h') :
    CallTimely now kv i holder (some h') .idle ∧
      ∀ h₀, some h = some h₀ → ∃ h₁, some h' = some h₁ ∧ Follows h₀ h₁ := by
  refine ⟨callTimely_idle hh, ?_⟩
  rintro _ ⟨⟩
  exact ⟨_, rfl, hf⟩

variable {call : RefreshCall}

/-- The refresh goes on, with a handle that follows the one it had. -/
lemma HandleTimely.refreshes {pc : RefreshPc T} (hh : HandleTimely now kv i h')
    (hr : RefreshTimely now h' call pc)
    (hreq : ∀ request, (LeasePc.refresh call pc).request holder i = some request →
      RequestTimely now kv (some h') request) (hf : Follows h h') :
    CallTimely now kv i holder (some h') (.refresh call pc) ∧
      ∀ h₀, some h = some h₀ → ∃ h₁, some h' = some h₁ ∧ Follows h₀ h₁ := by
  refine ⟨⟨fun h₀ he => Option.some.inj he ▸ hh, ⟨_, rfl, hr⟩, hreq⟩, ?_⟩
  rintro _ ⟨⟩
  exact ⟨_, rfl, hf⟩

lemma follows_of_lt (hgiven : h.givenUp = true → h'.givenUp = true)
    (hlt : h.revision < h'.revision) : Follows h h' :=
  ⟨hgiven, le_of_lt hlt, fun he => absurd he (Nat.ne_of_lt hlt)⟩

lemma RefreshTimely.of_revision {pc pc' : RefreshPc T}
    (hr : RefreshTimely now h call pc) (r : Nat) (inFlight : Option (Envelope T))
    (hpr : pc'.prepared = pc.prepared) :
    RefreshTimely now { h with revision := r, inFlight := inFlight } call pc' where
  __ := hr
  extends_recorded payload ttl he := hr.extends_recorded payload ttl (hpr ▸ he)
  extends_started payload ttl he := hr.extends_started payload ttl (hpr ▸ he)

lemma RefreshTimely.swap (hr : RefreshTimely now h call .reading) (hh : HandleTimely now kv i h)
    (hre : call.started = none → now < h.recorded → h.recorded ≤ now + call.ttl.getD h.ttl)
    (payload : Envelope T) (hpa : payload.dateExpires = now + call.ttl.getD h.ttl) (r : Nat)
    (inFlight unanswered : Option (Envelope T)) :
    RefreshTimely now { h with revision := r, inFlight := inFlight } call
      (.swapping payload (call.ttl.getD h.ttl) unanswered r) where
  __ := hr
  extends_recorded payload ttl he _ := by
    cases he
    rw [hpa]
    cases ht : call.started with
    | none =>
      by_cases ho : now < h.recorded
      · exact .inl (hre ht ho)
      · exact .inr (Int.not_lt.1 ho)
    | some sta =>
      obtain ⟨-, httl, hheld⟩ := hr.renews sta ht
      obtain ⟨held, hheld⟩ := isSome_iff_exists.1 hheld
      rw [httl]
      exact .inl (hh.held held hheld).2
  extends_started payload ttl he sta ht := by
    cases he
    obtain ⟨hle, httl, -⟩ := hr.renews sta ht
    rw [hpa, httl]
    exact ⟨rfl, Int.add_le_add_right hle _⟩

variable (hh : HandleTimely now kv i h)
include hh

lemma HandleTimely.swapped {pc : RefreshPc T}
    (hr : RefreshTimely now h call pc) {payload : Envelope T} {ttl : Int} {r : Nat}
    (hpr : pc.prepared = some (payload, ttl)) (hle : r ≤ kv.revision)
    (hcov : h.Counts → Covered now kv i payload.dateExpires) :
    HandleTimely now kv i (call.started.elim { h with inFlight := none, revision := r, ttl := ttl }
      ({ h with inFlight := none, revision := r, ttl := ttl } : LeaseHandle T).renewed) := by
  cases ht : call.started with
  | none =>
    refine ⟨fun hc => ?_, hle, fun held hheld => ?_⟩
    · obtain he | ho := hr.extends_recorded payload ttl hpr hc
      · exact (hcov hc).of_le he
      · exact .inl ho
    rw [hr.bare ht] at hheld
    cases hheld
  | some sta =>
    obtain ⟨hsr, -, hsome⟩ := hr.renews sta ht
    obtain ⟨held, hheld⟩ := isSome_iff_exists.1 hsome
    obtain ⟨rfl, he⟩ := hr.extends_started payload ttl hpr sta ht
    obtain ⟨hsa, hre⟩ := hh.held held hheld
    have hd : h.dateExpires ≤ h.recorded := by
      simp only [recorded, hheld]
      exact Int.le_max_left _ _
    refine ⟨fun hc => ?_, hle, fun he' hh' => ?_⟩
    · simp only [Option.elim, recorded, renewed, hheld, map_some]
      exact ((hh.covered hc).of_le hd).max ((hcov hc).of_le (hsa ▸ he))
    simp only [Option.elim, renewed, hheld, map_some, Option.some.injEq] at hh'
    subst hh'
    refine ⟨hsa, ?_⟩
    simp only [Option.elim, recorded, renewed, hheld, map_some]
    omega

lemma HandleTimely.retook {sta : Int} {payload : Envelope T}
    {r : Nat} (hle : r ≤ kv.revision) (ht : sta + h.ttl ≤ payload.dateExpires)
    (hpa : payload.dateExpires ≤ now + h.ttl)
    (hcov : h.Counts → Covered now kv i payload.dateExpires) : HandleTimely now kv i (({ h with
      inFlight := none
      revision := r
      dateExpires := payload.dateExpires } : LeaseHandle T).renewed sta) := by
  refine ⟨fun hcn => ?_, hle, fun he' hh' => ?_⟩
  · have hc := hcov hcn
    cases hheld : h.held with
    | none => simpa [recorded, renewed, hheld] using hc
    | some held =>
      simp only [recorded, renewed, map_some]
      exact hc.max (hc.of_le ((hh.held held hheld).1 ▸ ht))
  cases hheld : h.held with
  | none => simp [renewed, hheld] at hh'
  | some held =>
    simp only [renewed, hheld, map_some, Option.some.injEq] at hh'
    subst hh'
    have hsa := (hh.held held hheld).1
    refine ⟨hsa, ?_⟩
    simp only [recorded, renewed, map_some]
    omega

variable [DecidableEq T]

lemma AnswerTimely.fence {v : LeaseEntry T ι} {obs : Nat}
    (ha : AnswerTimely now kv i (some h) pc (.entry (some (v, obs)))) (adopt : Bool)
    (env : Envelope T) : h.revision ≤ h.fence adopt env obs ∧
      h.fence adopt env obs ≤ kv.revision := by
  unfold LeaseHandle.fence
  split_ifs
  · exact ⟨ha.2 h rfl, ha.1⟩
  · exact ⟨le_rfl, hh.revision⟩

omit hh

theorem CallTimely.resumes (h : CallTimely now kv i holder handle pc)
    (hl : AnswerLawful WrittenBy kv i answer) (han : AnswerTimely now kv i handle pc answer)
    (hre : ∀ h call, handle = some h → pc = .refresh call .reading → call.started = none →
      now < h.recorded → h.recorded ≤ now + call.ttl.getD h.ttl)
    (hresumes : Resumes holder now handle pc answer handle' pc') :
    CallTimely now kv i holder handle' pc' ∧
      ∀ h, handle = some h → ∃ h', handle' = some h' ∧ Follows h h' := by
  cases hresumes with try obtain ⟨_, ⟨⟩, hr⟩ := h.point
  | acquired =>
    obtain ⟨rfl, ho⟩ := h.point
    refine ⟨callTimely_idle ⟨fun _ => ?_, han.1, fun held hheld => ?_⟩, by simp⟩
    · rw [recorded_handle]
      exact han.2.2 _ rfl (by simp)
    rw [recorded_handle]
    obtain ⟨retake, -, rfl⟩ := map_eq_some_iff.1 hheld
    exact ⟨rfl, Int.add_le_add_right ho _⟩
  | recheck _ _ _ pc' _ hpc =>
    refine ⟨⟨h.timely, h.point, ?_⟩, fun h₀ he => ⟨h₀, he, .refl h₀⟩⟩
    rintro req ⟨⟩
    cases pc' with
    | reclaiming rev => exact absurd rfl (hpc rev)
    | _ => trivial
  | reclaim _ _ _ env _ hv hstale =>
    refine ⟨⟨h.timely, h.point, ?_⟩, fun h₀ he => ⟨h₀, he, .refl h₀⟩⟩
    rintro req ⟨⟩
    refine .inl (KvKey.KnownAt.imp hl fun w hw => ?_)
    exact hw ▸ ⟨env, hv, Int.le_trans hstale h.point.2⟩
  | refused =>
    refine ⟨⟨h.timely, trivial, ?_⟩, fun h₀ he => ⟨h₀, he, .refl h₀⟩⟩
    rintro req ⟨⟩
  | swap h₀ call _ env obs unanswered =>
    have hh := h.timely h₀ rfl
    obtain ⟨hle, hfe⟩ := han.fence hh call.adopt env
    have hr' := fun payload hpa => hr.swap hh (hre h₀ call rfl rfl) payload
      hpa (h₀.fence call.adopt env obs) (some payload) unanswered
    refine (hh.of_revision _ _ hfe).refreshes (hr' _ rfl) ?_ (follows_of_revision _ _ hle)
    rintro req ⟨⟩
    exact .inr ⟨_, _, rfl, rfl, le_rfl, fun _ hc => (hr' _ rfl).extends_recorded _ _ rfl hc⟩
  | swapped h₀ call _ payload _ _ hpr =>
    obtain ⟨hle, hlt, hcov⟩ := han
    have hc' : h₀.Counts → Covered now kv i payload.dateExpires := by
      intro hc
      apply hcov _ (by simp [LeasePc.expiry, hpr])
      rintro h' ⟨⟩
      exact hc
    refine ((h.timely h₀ rfl).swapped hr hpr hle hc').ends ?_
    cases call.started with
    | none | some sta => exact follows_of_lt id (hlt h₀ rfl)
  | reread h₀ =>
    have hh := h.timely h₀ rfl
    refine (hh.of_revision _ _ hh.revision).refreshes (hr.of_revision h₀.revision _ rfl) ?_
      (follows_of_revision _ _ le_rfl)
    rintro req ⟨⟩
    trivial
  | reswap h₀ call payload _ ttl _ obs =>
    have hr' : RefreshTimely now { h₀ with revision := obs, inFlight := some payload } call
        (.reswapping payload ttl obs) := hr.of_revision obs (some payload) rfl
    refine ((h.timely h₀ rfl).of_revision _ _ han.1).refreshes hr' ?_
      (follows_of_revision _ _ (han.2 h₀ rfl))
    rintro req ⟨⟩
    exact .inr ⟨_, _, rfl, rfl, le_rfl, fun _ hc => hr'.extends_recorded _ _ rfl hc⟩
  | lost h₀ _ _ _ inFlight reason =>
    have hh := h.timely h₀ rfl
    exact ((hh.of_revision h₀.revision inFlight hh.revision).tell reason).ends
      ⟨id, le_rfl, fun _ hc => absurd hc (not_counts_tell reason)⟩
  | retake h₀ _ _ _ _ sta ht =>
    have hh := h.timely h₀ rfl
    refine ⟨⟨?_, ⟨_, rfl, ?_, Int.le_refl _⟩, ?_⟩, ?_⟩
    · rintro h' ⟨⟩
      exact hh.of_revision _ _ hh.revision
    · exact Int.add_le_add_right (hr.renews sta ht).1 _
    · rintro req ⟨⟩
      trivial
    rintro h' ⟨⟩
    exact ⟨_, rfl, follows_of_revision _ _ le_rfl⟩
  | retook h₀ =>
    obtain ⟨_, ⟨⟩, ht, hpa⟩ := h.point
    obtain ⟨hle, hlt, hcov⟩ := han
    refine ((h.timely h₀ rfl).retook hle ht hpa fun hc => ?_).ends (follows_of_lt id (hlt h₀ rfl))
    apply hcov _ rfl
    rintro h' ⟨⟩
    exact hc
  | unretaken h₀ _ reason =>
    have hh := h.timely h₀ rfl
    exact ((hh.of_revision h₀.revision none hh.revision).tell reason).ends
      ⟨id, le_rfl, fun _ hc => absurd hc (not_counts_tell reason)⟩
  | delete =>
    refine ⟨⟨h.timely, h.point, ?_⟩, fun h' he => ⟨h', he, .refl h'⟩⟩
    rintro req ⟨⟩
    exact h.point
  | released h₀ =>
    have hh := h.timely h₀ rfl
    exact HandleTimely.ends { hh with } ⟨id, le_rfl, fun _ hc => ⟨hc, rfl⟩⟩

end Resumes

section Begins

variable {h : LeaseHandle T}

lemma CallTimely.begins (h : CallTimely now kv i holder handle pc)
    {a : LeaseAct ι} (hbegins : Begins now i a handle handle' pc') :
    CallTimely now kv i holder handle' pc' ∧
      ∀ h, handle = some h → ∃ h', handle' = some h' ∧ Follows h h' := by
  cases hbegins with
  | acquire =>
    refine ⟨⟨h.timely, ⟨rfl, Int.le_refl _⟩, ?_⟩, by simp⟩
    rintro req ⟨⟩
    trivial
  | refresh h₀ ttl _ hheld =>
    refine ⟨⟨h.timely, ⟨h₀, rfl, fun _ => hheld, by simp, ?_, ?_⟩, ?_⟩,
      fun h' he => ⟨h', he, .refl h'⟩⟩
    · rintro payload ttl ⟨⟩
    · rintro payload ttl ⟨⟩
    rintro req ⟨⟩
    trivial
  | renew h₀ _ hheld =>
    refine ⟨⟨h.timely, ⟨h₀, rfl, by simp, ?_, ?_, ?_⟩, ?_⟩, fun h' he => ⟨h', he, .refl h'⟩⟩
    · rintro sta ⟨⟩
      exact ⟨Int.le_refl _, rfl, by simp [hheld]⟩
    · rintro payload ttl ⟨⟩
    · rintro payload ttl ⟨⟩
    rintro req ⟨⟩
    trivial
  | release h₀ =>
    have hg : ¬ ({ h₀ with givenUp := true } : LeaseHandle T).Counts := by
      rintro ⟨-, hg⟩
      cases hg
    refine ⟨⟨?_, ⟨_, rfl, rfl⟩, ?_⟩, ?_⟩
    · rintro h' ⟨⟩
      exact ⟨fun hc => absurd hc hg, (h.timely h₀ rfl).revision, (h.timely h₀ rfl).held⟩
    · rintro req ⟨⟩
      trivial
    rintro h' ⟨⟩
    exact ⟨_, rfl, fun _ => rfl, le_rfl, fun _ hc => absurd hc hg⟩

lemma PcTimely.tell (hpc : PcTimely now (some h) pc) (reason : LossReason) :
    PcTimely now (some (h.tell reason)) pc := by
  cases pc with
  | idle => trivial
  | acquire => cases hpc.1
  | refresh =>
    obtain ⟨_, ⟨⟩, hr⟩ := hpc
    refine ⟨_, rfl, hr.bare, hr.renews, fun payload ttl _ hc => ?_, hr.extends_started⟩
    exact absurd hc (not_counts_tell reason)
  | retake =>
    obtain ⟨_, ⟨⟩, ht⟩ := hpc
    exact ⟨_, rfl, ht⟩
  | release =>
    obtain ⟨_, ⟨⟩, hg⟩ := hpc
    exact ⟨_, rfl, hg⟩

lemma CallTimely.tell (hcall : CallTimely now kv i holder (some h) pc) (reason : LossReason) :
    CallTimely now kv i holder (some (h.tell reason)) pc where
  timely := by
    rintro h' ⟨⟩
    exact (hcall.timely h rfl).tell reason
  point := hcall.point.tell reason
  request req hrequest := (hcall.request req hrequest).follows (follows_tell reason)

lemma AnswerTimely.tell (ha : AnswerTimely now kv i (some h) pc answer) (reason : LossReason) :
    AnswerTimely now kv i (some (h.tell reason)) pc answer := by
  unfold AnswerTimely at ha ⊢
  split at ha
  · refine ⟨ha.1, ?_⟩
    rintro h' ⟨⟩
    exact ha.2 h rfl
  · refine ⟨ha.1, ?_, fun e he hc => absurd (hc _ rfl) (not_counts_tell reason)⟩
    rintro h' ⟨⟩
    exact ha.2.1 h rfl
  · trivial

end Begins

def LeasePc.stamps : LeasePc T → Option RefreshCall
  | .refresh call .reading => if call.started = none then some call else none
  | _ => none

namespace LeaseRun

variable [DecidableEq T] [DecidableEq ι] {holder : ι → T} {s s' : LeaseRun T ι} {a : LeaseAct ι}

structure Timely (holder : ι → T) (s : LeaseRun T ι) : Prop where
  calls : ∀ i, CallTimely s.now s.kv i (holder i) (s.handles i) (s.calls i).pc
  answers : ∀ i answer, (s.calls i).answer = some answer →
    AnswerTimely s.now s.kv i (s.handles i) (s.calls i).pc answer
  late : ∀ i request, (i, request) ∈ s.late → RequestTimely s.now s.kv (s.handles i) request

/-- An entry that a handle takes for its own was written by its acquisition, and a refresh of a bare
handle whose recorded expiry is in the future writes no earlier one. -/
def Extends (holder : ι → T) (s : LeaseRun T ι) : LeaseAct ι → Prop
  | .hear i => ∀ h ∈ s.handles i, ∀ answer ∈ (s.calls i).answer,
      (∀ v ∈ adopted (holder i) h (s.calls i).pc answer, v.writer = some i) ∧
      ∀ call ∈ (s.calls i).pc.stamps, s.now < h.recorded →
        h.recorded ≤ s.now + call.ttl.getD h.ttl
  | _ => True

instance (s : LeaseRun T ι) (a) : Decidable (s.Extends holder a) := by
  unfold Extends
  split <;> infer_instance

namespace Timely

variable (h : s.Timely holder)
include h

omit [DecidableEq T] in
lemma call {i : ι} {handle : Option (LeaseHandle T)} {c : LeaseCall T ι}
    (hcall : CallTimely s.now s.kv i (holder i) handle c.pc ∧
      ∀ h, s.handles i = some h → ∃ h', handle = some h' ∧ Follows h h')
    (han : ∀ answer, c.answer = some answer → AnswerTimely s.now s.kv i handle c.pc answer) :
    Timely holder { s with
        handles := Function.update s.handles i handle
        calls := Function.update s.calls i c } where
  calls := forall_update₂ (I := fun j handle (c : LeaseCall T ι) =>
    CallTimely s.now s.kv j (holder j) handle c.pc) h.calls hcall.1
  answers := forall_update₂ (I := fun j handle (c : LeaseCall T ι) => ∀ answer,
    c.answer = some answer → AnswerTimely s.now s.kv j handle c.pc answer) h.answers han
  late := by
    refine forall_update (I := fun j handle => ∀ req, (j, req) ∈ s.late →
      RequestTimely s.now s.kv handle req) h.late fun req hmem => ?_
    have hr := h.late i req hmem
    cases hd : s.handles i with
    | none =>
      rw [hd] at hr
      exact hr.of_none
    | some h₀ =>
      obtain ⟨h', rfl, ho⟩ := hcall.2 h₀ hd
      rw [hd] at hr
      exact hr.follows ho

omit [DecidableEq T] [DecidableEq ι] in
lemma serves {j : ι} {req : KvRequest (LeaseEntry T ι)} {kv : KvKey (LeaseEntry T ι)}
    (he : s.kv.Serves req kv answer) (hla : RequestLawful WrittenBy s.kv s.now j req)
    (hre : RequestTimely s.now s.kv (s.handles j) req) :
    Timely holder { s with kv := kv } := by
  have hl : Later s.kv kv := fun r P hr => hr.serves he
  refine ⟨fun i => ?_, fun i answer' han => ?_, fun i req' hmem => ?_⟩
  · refine ⟨fun h₀ hd => ?_, (h.calls i).point, fun req' hrequest => ?_⟩
    · apply ((h.calls i).timely h₀ hd).serves he hla
      rintro rfl
      rw [← hd]
      exact hre
    · exact ((h.calls i).request req' hrequest).mono hl (Int.le_refl _)
  · apply (h.answers i answer' han).serves he hla
    rintro rfl
    exact hre
  · exact (h.late i req' hmem).mono hl (Int.le_refl _)

omit [DecidableEq T] [DecidableEq ι] in
lemma late_append {i j : ι} {req req' : KvRequest (LeaseEntry T ι)}
    (hre : (s.calls i).pc.request (holder i) i = some req)
    (hmem : (j, req') ∈ s.late ++ [(i, req)]) :
    RequestTimely s.now s.kv (s.handles j) req' := by
  obtain hmem | hmem := List.mem_append.1 hmem
  · exact h.late j req' hmem
  obtain ⟨rfl, rfl⟩ := Prod.mk.inj (List.mem_singleton.1 hmem)
  exact (h.calls j).request req' hre

theorem step (hla : s.Lawful WrittenBy holder) (ho : s.Extends holder a)
    (hm : Moves holder s a s') : s'.Timely holder := by
  cases hm with
  | tick time =>
    have hle : s.now ≤ s.now + time := by omega
    refine ⟨fun i => ⟨fun h₀ hd => ((h.calls i).timely h₀ hd).mono hle,
      (h.calls i).point.mono hle, fun req hrequest => ?_⟩, fun i answer han => ?_,
      fun i req hmem => ?_⟩
    · exact ((h.calls i).request req hrequest).mono (fun _ _ => id) hle
    · exact (h.answers i answer han).mono hle
    · exact (h.late i req hmem).mono (fun _ _ => id) hle
  | lapse v env hv henv hexpired =>
    have hstale : v.Stale s.now := ⟨env, henv, hexpired⟩
    have hl : Later s.kv (s.kv.push none) := fun r P hr => hr.push none
    have hle : s.kv.revision ≤ (s.kv.push none).revision := Nat.le_succ_of_le s.kv.revision_le
    refine ⟨fun i => ⟨fun h₀ hd => ?_, (h.calls i).point, fun req hrequest => ?_⟩,
      fun i answer han => ?_, fun i req hmem => ?_⟩
    · have hh := (h.calls i).timely h₀ hd
      exact ⟨fun hc => (hh.covered hc).lapse hv hstale, le_trans hh.revision hle, hh.held⟩
    · exact ((h.calls i).request req hrequest).mono hl (Int.le_refl _)
    · exact (h.answers i answer han).lapse hv hstale
    · exact (h.late i req hmem).mono hl (Int.le_refl _)
  | begin _ i _ _ _ hbegins => exact h.call ((h.calls i).begins hbegins) (by simp)
  | tell _ i h₀ reason _ hd =>
    have hcall := h.calls i
    have has := h.answers i
    rw [hd] at hcall has
    have hfo : ∀ h, s.handles i = some h →
        ∃ h', some (h₀.tell reason) = some h' ∧ Follows h h' := by
      intro h' he
      obtain rfl : h₀ = h' := Option.some.inj (hd.symm.trans he)
      exact ⟨_, rfl, follows_tell reason⟩
    simpa using h.call ⟨hcall.tell reason, hfo⟩
      fun answer han => (has answer han).tell reason
  | serve i _ req _ answer _ hrequest hse =>
    have hnext := h.serves hse ((hla.calls i).request req hrequest)
      ((h.calls i).request req hrequest)
    have hw := (h.calls i).answered hrequest hse
    simpa using hnext.call (c := ⟨(s.calls i).pc, some answer⟩)
      ⟨hnext.calls i, fun h' he => ⟨h', he, .refl h'⟩⟩ (by simpa)
  | resend i req hre => exact { h with late := fun j req' hmem => h.late_append hre hmem }
  | hear i answer _ _ han hresumes =>
    refine h.call ((h.calls i).resumes (hla.answers i answer han) (h.answers i answer han)
      (fun h₀ call hd hpc ht => ?_) hresumes) (by simp)
    apply (ho h₀ hd answer han).2 call
    simp [hpc, LeasePc.stamps, ht]
  | giveUp i late hlate =>
    have hidle : CallTimely s.now s.kv i (holder i) (s.handles i) .idle :=
      ⟨(h.calls i).timely, trivial, fun _ he => by cases he⟩
    have hnext := h.call (c := ⟨.idle, none⟩) ⟨hidle, fun h' he => ⟨h', he, .refl h'⟩⟩ (by simp)
    rw [Function.update_eq_self] at hnext
    refine { hnext with late := fun j req hmem => ?_ }
    obtain rfl | ⟨req', -, -, hrequest, rfl⟩ := hlate
    · exact h.late j req hmem
    · exact h.late_append hrequest hmem
  | land _ _ i req _ _ hn hse =>
    have hmem : (i, req) ∈ s.late := List.mem_of_getElem? hn
    have hnext := h.serves hse (hla.late i req hmem) (h.late i req hmem)
    exact ⟨hnext.calls, hnext.answers, fun j req' hm' =>
      hnext.late j req' (List.mem_of_mem_eraseIdx hm')⟩

end Timely

/-- The acquisition's handle takes the lease for its own, until a time in the future. -/
def Live (s : LeaseRun T ι) (i : ι) : Prop :=
  ∃ h ∈ s.handles i, h.lost = none ∧ h.givenUp = false ∧ s.now < h.recorded
deriving Decidable

omit [DecidableEq T] [DecidableEq ι] in
lemma Timely.eq_of_live (h : s.Timely holder) {i j : ι} (hi : s.Live i) (hj : s.Live j) :
    i = j := by
  obtain ⟨hi, hd, hl, hg, ho⟩ := hi
  obtain ⟨hj, hh', hl', hg', hn'⟩ := hj
  rcases ((h.calls i).timely hi hd).covered ⟨hl, hg⟩ with hle | ⟨v, _, hv, hr, -⟩
  · exact absurd ho (Int.not_lt.2 hle)
  rcases ((h.calls j).timely hj hh').covered ⟨hl', hg'⟩ with
    hle | ⟨w, _, hw, hw', -⟩
  · exact absurd hn' (Int.not_lt.2 hle)
  rw [hv] at hw
  cases hw
  exact Option.some.inj (hr.symm.trans hw')

omit [DecidableEq T] [DecidableEq ι] in
lemma timely_start (now : Int) (kv : KvKey (LeaseEntry T ι)) :
    (start now kv : LeaseRun T ι).Timely holder where
  calls i := ⟨fun h he => (by cases he), trivial, fun req he => (by cases he)⟩
  answers i answer he := by cases he
  late i req hmem := by cases hmem

omit [DecidableEq ι] in
lemma heldBy_of_adopted {i : ι} {h : LeaseHandle T}
    {v : LeaseEntry T ι} {now : Int} {pc : LeasePc T} (hown : pc.Own (holder i) now)
    (hv : v ∈ adopted (holder i) h pc answer) : v.HeldBy (holder i) := by
  unfold adopted at hv
  split at hv
  · obtain ⟨env, henv, hi⟩ := bind_eq_some_iff.1 hv
    split_ifs at hi with hd
    cases hi
    exact ⟨env, henv, hd.1⟩
  · split_ifs at hv with henv <;> cases hv
    · exact ⟨_, henv, hown.2 _ rfl⟩
  · obtain ⟨env, henv, hi⟩ := bind_eq_some_iff.1 hv
    split_ifs at hi with hd
    cases hi
    exact ⟨env, henv, hd.1⟩
  · cases hv

lemma lawful_heldBy {acts : List (LeaseAct ι)} {now : Int} {kv : KvKey (LeaseEntry T ι)}
    (hr : (system holder).run (start now kv) acts = some s) :
    s.Lawful (fun i v => v.HeldBy (holder i)) holder := by
  refine run_invariant _ (fun s a s' h ht => ?_) (lawful_start now kv) hr
  refine h.step (fun i env henv => ⟨env, rfl, henv⟩) ?_ (moves_of_step ht)
  intro i _ h₀ answer hd han v hv
  exact heldBy_of_adopted (h.calls i).own hv

lemma timely_step (h : s.Lawful WrittenBy holder ∧ s.Timely holder) (ho : s.Extends holder a)
    (ht : step holder s a = some s') : s'.Lawful WrittenBy holder ∧ s'.Timely holder := by
  have hm := moves_of_step ht
  refine ⟨h.1.step (fun _ _ _ => rfl) ?_ hm, h.2.step h.1 ho hm⟩
  rintro i rfl h₀ answer hd han
  exact (ho h₀ hd answer han).1

/-- Over runs whose steps all extend: no two handles take the lease for their own at one time. And
in every run, a delete that takes an entry out of the bucket takes out one of its own holder. -/
theorem exclusive {acts : List (LeaseAct ι)} {now : Int} {kv : KvKey (LeaseEntry T ι)}
    (hrun : (system holder).run (start now kv) acts = some s) :
    (((system holder).guard (Extends holder)).run (start now kv) acts = some s →
      ∀ i j, s.Live i → s.Live j → i = j) ∧
    ∀ i r refuse v, s.Outstanding holder i (.delete r) → s.kv.value = some v →
      (s.kv.serve refuse (.delete r)).1.value = none → v.HeldBy (holder i) := by
  constructor
  · intro hg i j hi hj
    have h : s.Lawful WrittenBy holder ∧ s.Timely holder := by
      refine run_guard_invariant _
        (I := fun s : LeaseRun T ι => s.Lawful WrittenBy holder ∧ s.Timely holder)
        (fun s a s' h hk ht => ?_) ⟨lawful_start now kv, timely_start now kv⟩ hg
      exact timely_step h hk ht
    exact h.2.eq_of_live hi hj
  intro i r refuse v ho hv hgo
  have h := lawful_heldBy hrun
  have hl : RequestLawful (fun i v => v.HeldBy (holder i)) s.kv s.now i (.delete r) := by
    obtain ⟨-, hrequest⟩ | hmem := ho
    · exact (h.calls i).request _ hrequest
    · exact h.late i _ hmem
  have hrev : s.kv.revision = r := by
    by_contra he
    simp [KvKey.serve, KvKey.deleteAt, hl.1, he, hv] at hgo
  exact hl.2.holds hrev v hv

def pods : Bool → Nat
  | false => 1
  | true => 2

/-- One pod renews its lease once without hearing the answer; the write is taken after the other pod
has found the lease held, and the next renewal goes on from it. -/
def renewedUnheard : List (LeaseAct Bool) :=
  [.acquire false 30 (some false), .serve false false, .hear false, .tick 10, .renew false,
    .serve false false, .hear false, .giveUp false, .acquire true 30 none, .serve true false,
    .hear true, .serve true false, .hear true, .serve true false, .hear true, .land 0 false,
    .tick 15, .renew false, .serve false false, .hear false, .serve false false, .hear false]

theorem exclusive_renewedUnheard : ∃ s : LeaseRun Nat Bool,
      ((system pods).guard (Extends pods)).run (start 0 .empty) renewedUnheard = some s ∧
        s.Live false ∧ ¬ s.Live true := by
  refine exists_run_and _ rfl fun s hr hlive hl' => ?_
  cases (exclusive (run_of_run_guard _ hr)).1 hr false true hlive hl'

/-- A pod refreshes its lease of thirty seconds for one second more; the other takes over after
two. -/
def refreshedForLess : List (LeaseAct Bool) :=
  [.acquire false 30 none, .serve false false, .hear false, .refresh false (some 1) false,
    .serve false false, .hear false, .serve false false, .hear false, .tick 2,
    .acquire true 30 none, .serve true false, .hear true, .serve true false, .hear true,
    .serve true false, .hear true, .serve true false, .hear true]

theorem both_live_refreshedForLess : ∃ s : LeaseRun Nat Bool,
      (system pods).run (start 0 .empty) refreshedForLess = some s ∧ s.Live false ∧ s.Live true :=
  exists_run_of_any _ rfl

end LeaseRun

end ThreeTears
