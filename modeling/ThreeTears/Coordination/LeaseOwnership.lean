import ThreeTears.Coordination.LeaseSteps
import ThreeTears.Lib.Families

/-!
# Whose entry a request meets

A handle's revision is that of a write of its own, and a request that names a revision meets, while
the entry is still at it, an entry of its own, or, for a takeover, an expired one. `Mine` is what
"own" means: the entry carries the holder's id, or it was written by the very acquisition, which
holds as long as no handle takes another's write for its own.
-/

namespace ThreeTears

variable {T ι : Type*}

def LeaseEntry.HeldBy (v : LeaseEntry T ι) (holder : T) : Prop :=
  ∃ env, v.envelope = some env ∧ env.holder = holder

def LeaseEntry.Stale (now : Int) (v : LeaseEntry T ι) : Prop :=
  ∃ env, v.envelope = some env ∧ env.dateExpires ≤ now

lemma LeaseEntry.Stale.mono {now now' : Int} {v : LeaseEntry T ι} (h : v.Stale now)
    (hle : now ≤ now') : v.Stale now' := by
  obtain ⟨env, henv, he⟩ := h
  exact ⟨env, henv, Int.le_trans he hle⟩

def RefreshPc.unanswered : RefreshPc T → Option (Envelope T)
  | .swapping _ _ unanswered _ => unanswered
  | .rereading _ _ unanswered => some unanswered
  | _ => none

/-- The call writes and looks for envelopes of its own holder, and began before now. -/
def LeasePc.Own (holder : T) (now : Int) : LeasePc T → Prop
  | .acquire attempt _ => attempt.now ≤ now
  | .refresh _ pc => (∀ payload ttl, pc.prepared = some (payload, ttl) → payload.holder = holder) ∧
      ∀ unanswered, pc.unanswered = some unanswered → unanswered.holder = holder
  | .retake _ _ payload => payload.holder = holder
  | _ => True

lemma LeasePc.Own.mono {holder : T} {now now' : Int} {pc : LeasePc T} (h : pc.Own holder now)
    (hle : now ≤ now') : pc.Own holder now' := by
  cases pc with
  | acquire => exact Int.le_trans h hle
  | _ => exact h

section Lawful

variable (Mine : ι → LeaseEntry T ι → Prop) (kv : KvKey (LeaseEntry T ι)) (now : Int) (i : ι)

def RequestLawful : KvRequest (LeaseEntry T ι) → Prop
  | .get => True
  | .create v => Mine i v
  | .update v r => Mine i v ∧ kv.KnownAt r fun w => Mine i w ∨ w.Stale now
  | .delete r => r ≠ 0 ∧ kv.KnownAt r (Mine i)

def AnswerLawful : KvAnswer (LeaseEntry T ι) → Prop
  | .entry (some (v, r)) => kv.KnownAt r (· = v)
  | .written (some r) => kv.KnownAt r (Mine i)
  | _ => True

structure HandleLawful (holder : T) (h : LeaseHandle T) : Prop where
  revision : kv.KnownAt h.revision (Mine i)
  inFlight : ∀ payload, h.inFlight = some payload → payload.holder = holder

structure CallLawful (holder : T) (handle : Option (LeaseHandle T)) (pc : LeasePc T) : Prop where
  handle : ∀ h, handle = some h → HandleLawful Mine kv i holder h
  own : pc.Own holder now
  request : ∀ request, pc.request holder i = some request → RequestLawful Mine kv now i request

end Lawful

variable {Mine : ι → LeaseEntry T ι → Prop} {kv kv' : KvKey (LeaseEntry T ι)} {now now' : Int}
  {i : ι} {holder : T} {handle handle' : Option (LeaseHandle T)} {pc pc' : LeasePc T}

def Later (kv kv' : KvKey (LeaseEntry T ι)) : Prop := ∀ r P, kv.KnownAt r P → kv'.KnownAt r P

lemma RequestLawful.mono {req : KvRequest (LeaseEntry T ι)}
    (h : RequestLawful Mine kv now i req) (hk : Later kv kv') (hle : now ≤ now') :
    RequestLawful Mine kv' now' i req := by
  cases req with
  | get => trivial
  | create => exact h
  | update _ r => exact ⟨h.1, (hk r _ h.2).imp fun w => Or.imp_right fun hstale => hstale.mono hle⟩
  | delete r => exact ⟨h.1, hk r _ h.2⟩

lemma AnswerLawful.mono {answer : KvAnswer (LeaseEntry T ι)} (h : AnswerLawful Mine kv i answer)
    (hk : Later kv kv') : AnswerLawful Mine kv' i answer := by
  unfold AnswerLawful at h ⊢
  split at h
  · exact hk _ _ h
  · exact hk _ _ h
  · trivial

lemma HandleLawful.mono {h : LeaseHandle T} (hh : HandleLawful Mine kv i holder h)
    (hk : Later kv kv') : HandleLawful Mine kv' i holder h :=
  ⟨hk _ _ hh.revision, hh.inFlight⟩

lemma CallLawful.mono (h : CallLawful Mine kv now i holder handle pc) (hk : Later kv kv')
    (hle : now ≤ now') : CallLawful Mine kv' now' i holder handle pc where
  handle h' hhandle := (h.handle h' hhandle).mono hk
  own := h.own.mono hle
  request req hr := (h.request req hr).mono hk hle

lemma answerLawful_of_serves {req : KvRequest (LeaseEntry T ι)}
    {answer : KvAnswer (LeaseEntry T ι)} (hse : kv.Serves req kv' answer)
    (h : RequestLawful Mine kv now i req) : AnswerLawful Mine kv' i answer := by
  cases hse with
  | get =>
    cases he : kv.getEntry with
    | none => trivial
    | some => exact KvKey.KnownAt.of_getEntry he
  | create => exact KvKey.KnownAt.of_push h
  | update => exact KvKey.KnownAt.of_push h.1
  | _ => trivial

lemma callLawful_idle {h : LeaseHandle T} (hh : HandleLawful Mine kv i holder h) :
    CallLawful Mine kv now i holder (some h) .idle where
  handle h' he := Option.some.inj he ▸ hh
  own := trivial
  request req hr := by cases hr

lemma CallLawful.begins (h : CallLawful Mine kv now i holder handle pc)
    (hm : ∀ env : Envelope T, env.holder = holder → Mine i ⟨some env, some i⟩)
    {a : LeaseAct ι} (hbegins : Begins now i a handle handle' pc') :
    CallLawful Mine kv now i holder handle' pc' := by
  cases hbegins with
  | acquire =>
    refine ⟨h.handle, Int.le_refl _, ?_⟩
    rintro req ⟨⟩
    exact hm _ rfl
  | refresh h₀ ttl adopt | renew h₀ held =>
    refine ⟨h.handle, ⟨by simp [RefreshPc.prepared], by simp [RefreshPc.unanswered]⟩, ?_⟩
    rintro req ⟨⟩
    trivial
  | release h₀ =>
    refine ⟨?_, trivial, ?_⟩
    · rintro h' ⟨⟩
      exact ⟨(h.handle h₀ rfl).revision, (h.handle h₀ rfl).inFlight⟩
    rintro req ⟨⟩
    trivial

/-! ### Going on with an answer -/

section Resumes

variable [DecidableEq T] {answer : KvAnswer (LeaseEntry T ι)}

lemma HandleLawful.fence {h : LeaseHandle T} (hh : HandleLawful Mine kv i holder h) {adopt : Bool}
    {v : LeaseEntry T ι} {env : Envelope T} {obs : Nat} (he : kv.KnownAt obs (· = v))
    (ho : h.Adopts adopt env obs → Mine i v) : kv.KnownAt (h.fence adopt env obs) (Mine i) := by
  unfold LeaseHandle.fence
  split_ifs with hd
  · exact he.imp fun w hw => hw ▸ ho hd
  · exact hh.revision

theorem CallLawful.resumes (h : CallLawful Mine kv now i holder handle pc)
    (hm : ∀ env : Envelope T, env.holder = holder → Mine i ⟨some env, some i⟩)
    (han : AnswerLawful Mine kv i answer)
    (hao : ∀ h, handle = some h → ∀ v ∈ adopted holder h pc answer, Mine i v)
    (hresumes : Resumes holder now handle pc answer handle' pc') :
    CallLawful Mine kv now i holder handle' pc' := by
  cases hresumes with
  | acquired => exact callLawful_idle ⟨han, by simp [Attempt.handle]⟩
  | recheck _ _ _ pc' _ hpc =>
    refine ⟨h.handle, h.own, fun req hr => ?_⟩
    cases hr
    cases pc' with
    | reclaiming rev => exact absurd rfl (hpc rev)
    | creating | recreating => exact hm _ rfl
    | rechecking | judging => trivial
  | reclaim _ _ _ env _ hv hstale =>
    refine ⟨h.handle, h.own, fun req hr => ?_⟩
    cases hr
    refine ⟨hm _ rfl, KvKey.KnownAt.imp han fun w hw => .inr ?_⟩
    exact hw ▸ ⟨env, hv, Int.le_trans hstale h.own⟩
  | refused => exact ⟨h.handle, trivial, fun req hr => by cases hr⟩
  | swap h₀ call v env obs _ hv hholder hun =>
    have hh := h.handle h₀ rfl
    have hfe : kv.KnownAt (h₀.fence call.adopt env obs) (Mine i) := by
      refine hh.fence han fun hd => hao h₀ rfl v ?_
      simp [adopted, hv, hholder, hd]
    refine ⟨fun h' he => ?_, ⟨?_, ?_⟩, fun req hr => ?_⟩
    · cases he
      exact ⟨hfe, fun payload hpa => by cases hpa; rfl⟩
    · rintro payload ttl hpa
      cases hpa
      rfl
    · intro un he
      obtain rfl | rfl := hun
      · cases he
      · exact hh.inFlight un he
    cases hr
    exact ⟨hm _ rfl, hfe.imp fun w => Or.inl⟩
  | swapped _ call =>
    apply callLawful_idle
    cases call.started with
    | none | some sta => exact ⟨han, fun _ he => by cases he⟩
  | reread h₀ _ payload unanswered =>
    have hun := h.own.2 unanswered rfl
    refine ⟨fun h' he => ?_, ⟨h.own.1, h.own.2⟩, fun req hr => ?_⟩
    · cases he
      refine ⟨(h.handle h₀ rfl).revision, fun payload hpa => ?_⟩
      cases hpa
      exact hun
    cases hr
    trivial
  | reswap h₀ _ payload _ ttl v obs hv =>
    have hpa := h.own.1 payload ttl rfl
    have ho : kv.KnownAt obs (Mine i) := by
      refine KvKey.KnownAt.imp han fun w hw => hw ▸ hao h₀ rfl v ?_
      simp [adopted, hv]
    refine ⟨fun h' he => ?_, ⟨?_, ?_⟩, fun req hr => ?_⟩
    · cases he
      exact ⟨ho, fun payload hp' => by cases hp'; exact hpa⟩
    · rintro payload ttl hpr
      cases hpr
      exact hpa
    · intro un he
      cases he
    cases hr
    exact ⟨hm _ hpa, ho.imp fun w => Or.inl⟩
  | lost h₀ _ _ _ _ _ hin =>
    have hh := h.handle h₀ rfl
    refine callLawful_idle ⟨hh.revision, fun payload he => ?_⟩
    obtain rfl | rfl := hin
    · cases he
    · exact hh.inFlight payload he
  | retake h₀ =>
    refine ⟨fun h' he => ?_, rfl, fun req hr => ?_⟩
    · cases he
      refine ⟨(h.handle h₀ rfl).revision, fun payload hpa => ?_⟩
      cases hpa
      rfl
    cases hr
    exact hm _ rfl
  | retook => exact callLawful_idle ⟨han, fun _ he => by cases he⟩
  | unretaken h₀ =>
    exact callLawful_idle ⟨(h.handle h₀ rfl).revision, fun _ he => by cases he⟩
  | delete h₀ v _ _ hv hholder hpos =>
    refine ⟨h.handle, trivial, fun req hr => ?_⟩
    cases hr
    refine ⟨hpos, (h.handle h₀ rfl).fence han fun hd => hao h₀ rfl v ?_⟩
    simp [adopted, hv, hholder, hd]
  | released h₀ =>
    exact callLawful_idle ⟨(h.handle h₀ rfl).revision, (h.handle h₀ rfl).inFlight⟩

end Resumes

namespace LeaseRun

variable [DecidableEq T] [DecidableEq ι] {holder : ι → T} {s s' : LeaseRun T ι} {a : LeaseAct ι}

/-- Every call and every write left behind meets entries of its own. -/
structure Lawful (Mine : ι → LeaseEntry T ι → Prop) (holder : ι → T) (s : LeaseRun T ι) : Prop where
  calls : ∀ i, CallLawful Mine s.kv s.now i (holder i) (s.handles i) (s.calls i).pc
  answers : ∀ i answer, (s.calls i).answer = some answer → AnswerLawful Mine s.kv i answer
  late : ∀ i request, (i, request) ∈ s.late → RequestLawful Mine s.kv s.now i request

variable {Mine : ι → LeaseEntry T ι → Prop}

omit [DecidableEq T] [DecidableEq ι] in
lemma lawful_start (now : Int) (kv : KvKey (LeaseEntry T ι)) :
    (start now kv : LeaseRun T ι).Lawful Mine holder where
  calls i := ⟨fun h he => (by cases he), trivial, fun req he => (by cases he)⟩
  answers i answer he := by cases he
  late i req hmem := by cases hmem

namespace Lawful

variable (h : s.Lawful Mine holder)
include h

omit [DecidableEq T] [DecidableEq ι] in
lemma mono {kv : KvKey (LeaseEntry T ι)} {now : Int} (hk : Later s.kv kv) (hle : s.now ≤ now) :
    Lawful Mine holder { s with kv := kv, now := now } where
  calls i := (h.calls i).mono hk hle
  answers i answer han := (h.answers i answer han).mono hk
  late i req hmem := (h.late i req hmem).mono hk hle

omit [DecidableEq T] in
lemma call {i : ι} {handle : Option (LeaseHandle T)}
    {c : LeaseCall T ι} (hcall : CallLawful Mine s.kv s.now i (holder i) handle c.pc)
    (han : ∀ a, c.answer = some a → AnswerLawful Mine s.kv i a) : Lawful Mine holder { s with
        handles := Function.update s.handles i handle
        calls := Function.update s.calls i c } where
  calls := forall_update₂ (I := fun j handle (c : LeaseCall T ι) =>
    CallLawful Mine s.kv s.now j (holder j) handle c.pc) h.calls hcall
  answers := forall_update (I := fun j (c : LeaseCall T ι) =>
    ∀ a, c.answer = some a → AnswerLawful Mine s.kv j a) h.answers han
  late := h.late

omit [DecidableEq T] [DecidableEq ι] in
lemma late_append {i j : ι} {req req' : KvRequest (LeaseEntry T ι)}
    (hre : (s.calls i).pc.request (holder i) i = some req)
    (hmem : (j, req') ∈ s.late ++ [(i, req)]) : RequestLawful Mine s.kv s.now j req' := by
  obtain hmem | hmem := List.mem_append.1 hmem
  · exact h.late j req' hmem
  obtain ⟨rfl, rfl⟩ := Prod.mk.inj (List.mem_singleton.1 hmem)
  exact (h.calls j).request req' hre

theorem step (hm : ∀ i (env : Envelope T), env.holder = holder i → Mine i ⟨some env, some i⟩)
    (hd : ∀ i, a = .hear i → ∀ h answer, s.handles i = some h →
      (s.calls i).answer = some answer → ∀ v ∈ adopted (holder i) h (s.calls i).pc answer, Mine i v)
    (hmoves : Moves holder s a s') : s'.Lawful Mine holder := by
  cases hmoves with
  | tick => exact h.mono (fun _ _ => id) (by omega)
  | lapse => exact h.mono (fun r P hr => hr.push none) (Int.le_refl _)
  | begin _ i _ _ _ hbegins =>
    exact h.call ((h.calls i).begins (hm i) hbegins) (by simp)
  | tell _ i h₀ rea _ hhandle =>
    have hcall : CallLawful Mine s.kv s.now i (holder i) (some (h₀.tell rea))
      (s.calls i).pc := by
      refine ⟨?_, (h.calls i).own, (h.calls i).request⟩
      rintro _ ⟨⟩
      have hh := (h.calls i).handle h₀ hhandle
      exact { hh with }
    simpa using h.call hcall (h.answers i)
  | serve i _ req _ answer _ hre he =>
    have hl := h.mono (fun r P hr => hr.serves he) (Int.le_refl s.now)
    have hla := answerLawful_of_serves he ((h.calls i).request req hre)
    simpa using hl.call (c := ⟨(s.calls i).pc, some answer⟩) (hl.calls i) (by simpa)
  | resend i req hre => exact { h with late := fun j req' hmem => h.late_append hre hmem }
  | hear i answer _ _ han hresumes =>
    refine h.call ((h.calls i).resumes (hm i) (h.answers i answer han) ?_ hresumes) (by simp)
    exact fun h₀ hhandle => hd i rfl h₀ answer hhandle han
  | giveUp i late hlate =>
    have hidle : CallLawful Mine s.kv s.now i (holder i) (s.handles i) .idle :=
      ⟨(h.calls i).handle, trivial, fun _ hq => by cases hq⟩
    have hnext := h.call (c := ⟨.idle, none⟩) hidle (by simp)
    rw [Function.update_eq_self] at hnext
    refine { hnext with late := fun j req hmem => ?_ }
    obtain rfl | ⟨req', -, -, hre, rfl⟩ := hlate
    · exact h.late j req hmem
    · exact h.late_append hre hmem
  | land _ _ _ _ _ _ _ he =>
    have hl := h.mono (fun r P hr => hr.serves he) (Int.le_refl s.now)
    refine { hl with late := fun j req' hmem => ?_ }
    exact hl.late j req' (List.mem_of_mem_eraseIdx hmem)

end Lawful

end LeaseRun

end ThreeTears
