import ThreeTears.Coordination.LeaseOwnership

/-!
# How long a lease's entry lasts

As long as no refresh brings the expiry forward and no handle takes another's write for its own, a
handle that still counts the lease its own finds its own entry in the bucket, with an expiry no
earlier than the one it recorded.
-/

namespace ThreeTears

variable {T ι : Type*}

def WrittenBy (i : ι) (v : LeaseEntry T ι) : Prop := v.writer = some i

/-- Until `e` the key holds an entry that acquisition `i` wrote. -/
def Covered (now : Int) (kv : KvKey (LeaseEntry T ι)) (i : ι) (e : Int) : Prop :=
  e ≤ now ∨ ∃ v env, kv.value = some v ∧ WrittenBy i v ∧ v.envelope = some env ∧ e ≤ env.dateExpires

def LeaseHandle.Counts (h : LeaseHandle T) : Prop := h.lost = none ∧ h.givenUp = false

section Covered

variable {now now' : Int} {kv kv' : KvKey (LeaseEntry T ι)} {i j : ι} {e e' : Int}
  (h : Covered now kv i e)
include h

lemma Covered.mono (hle : now ≤ now') : Covered now' kv i e :=
  h.imp_left fun he => Int.le_trans he hle

lemma Covered.of_le (hle : e' ≤ e) : Covered now kv i e' := by
  obtain ho | ⟨v, env, hv, hw, henv, he⟩ := h
  · exact .inl (Int.le_trans hle ho)
  · exact .inr ⟨v, env, hv, hw, henv, Int.le_trans hle he⟩

lemma Covered.max (h' : Covered now kv i e') : Covered now kv i (max e e') := by
  rw [Int.max_def]
  split_ifs
  · exact h'
  · exact h

variable {v : LeaseEntry T ι}

omit h in
lemma covered_push {env : Envelope T} (hw : WrittenBy i v)
    (henv : v.envelope = some env) (he : e ≤ env.dateExpires) :
    Covered now (kv.push (some v)) i e :=
  .inr ⟨v, env, rfl, hw, henv, he⟩

lemma Covered.le_of_stale (hv : kv.value = some v) (hstale : v.Stale now) : e ≤ now := by
  obtain ho | ⟨w, env, hw, -, henv, he⟩ := h
  · exact ho
  rw [hv] at hw
  cases hw
  obtain ⟨env', he', hexpired⟩ := hstale
  rw [henv] at he'
  cases he'
  exact Int.le_trans he hexpired

/-- What a request of the acquisition's own must not spoil. -/
def Keeps (now : Int) (kv : KvKey (LeaseEntry T ι)) (e : Int) : KvRequest (LeaseEntry T ι) → Prop
  | .update v r => kv.revision = r → kv.KnownAt r (LeaseEntry.Stale now) ∨
      ∃ env, v.envelope = some env ∧ (e ≤ env.dateExpires ∨ e ≤ now)
  | .delete _ => False
  | _ => True

/-- No request ends a cover: another's meets an entry of its own or an expired one. -/
theorem Covered.serves {request : KvRequest (LeaseEntry T ι)}
    {answer : KvAnswer (LeaseEntry T ι)} (hse : kv.Serves request kv' answer)
    (hl : RequestLawful WrittenBy kv now j request) (hk : j = i → Keeps now kv e request) :
    Covered now kv' i e := by
  cases hse with
  | create _ hnone =>
    obtain ho | ⟨w, env, hw, -⟩ := h
    · exact .inl ho
    rw [hnone] at hw
    cases hw
  | update _ _ hrev =>
    obtain ho | ⟨w, env, hw, hr, henv, he⟩ := h
    · exact .inl ho
    have hcov : Covered now kv i e := .inr ⟨w, env, hw, hr, henv, he⟩
    obtain hj | hstale := hl.2.holds hrev w hw
    · obtain rfl : j = i := Option.some.inj (hj.symm.trans hr)
      obtain hstale | ⟨env', hn', he' | ho⟩ := hk rfl hrev
      · exact .inl (hcov.le_of_stale hw (hstale.holds hrev w hw))
      · exact covered_push hl.1 hn' he'
      · exact .inl ho
    · exact .inl (hcov.le_of_stale hw hstale)
  | delete _ hrev =>
    obtain ho | ⟨w, env, hw, hr, -⟩ := h
    · exact .inl ho
    have hj := hl.2.holds (hrev.resolve_left hl.1) w hw
    obtain rfl : j = i := Option.some.inj (hj.symm.trans hr)
    exact (hk rfl).elim
  | _ => exact h

lemma Covered.lapse (hv : kv.value = some v)
    (hstale : v.Stale now) : Covered now (kv.push none) i e :=
  .inl (h.le_of_stale hv hstale)

end Covered

/-! ### Handles, requests, answers -/

def LeasePc.expiry : LeasePc T → Option Int
  | .acquire attempt _ => some (attempt.now + attempt.ttl)
  | .refresh _ pc => pc.prepared.map fun prepared => prepared.1.dateExpires
  | .retake _ _ payload => some payload.dateExpires
  | _ => none

lemma expiry_of_request {holder : T} {i : ι} {pc : LeasePc T} {request : KvRequest (LeaseEntry T ι)}
    {v : LeaseEntry T ι} (hrequest : pc.request holder i = some request)
    (hw : request.writes = some v) : WrittenBy i v ∧
      ∃ env, v.envelope = some env ∧ pc.expiry = some env.dateExpires := by
  cases pc with try cases hrequest
  | acquire attempt pc | refresh call pc => cases pc <;> cases hw <;> exact ⟨rfl, _, rfl, rfl⟩
  | retake =>
    cases hw
    exact ⟨rfl, _, rfl, rfl⟩
  | release pc => cases pc <;> cases hw

section Timely

variable (now : Int) (kv : KvKey (LeaseEntry T ι)) (i : ι)

structure HandleTimely (h : LeaseHandle T) : Prop where
  covered : h.Counts → Covered now kv i h.recorded
  revision : h.revision ≤ kv.revision
  held : ∀ held, h.held = some held → held.ttl = h.ttl ∧ h.recorded ≤ now + h.ttl

/-- A request on its way does not shorten what its handle relies on. -/
def RequestTimely (handle : Option (LeaseHandle T)) : KvRequest (LeaseEntry T ι) → Prop
  | .update v r => kv.KnownAt r (LeaseEntry.Stale now) ∨
      ∃ h env, handle = some h ∧ v.envelope = some env ∧ r ≤ h.revision ∧
        (r = h.revision → h.Counts → h.recorded ≤ env.dateExpires ∨ h.recorded ≤ now)
  | .delete _ => ∃ h, handle = some h ∧ h.givenUp = true
  | _ => True

/-- An entry read was the handle's or a later one, and a write that was taken is in force. -/
def AnswerTimely (handle : Option (LeaseHandle T)) (pc : LeasePc T) :
    KvAnswer (LeaseEntry T ι) → Prop
  | .entry (some (_, observed)) => observed ≤ kv.revision ∧
      ∀ h, handle = some h → h.revision ≤ observed
  | .written (some r) => r ≤ kv.revision ∧ (∀ h, handle = some h → h.revision < r) ∧
      ∀ e, pc.expiry = some e → (∀ h, handle = some h → h.Counts) → Covered now kv i e
  | _ => True

/-- A refresh belongs to a bare handle or renews a held one, and extends what the handle
recorded. -/
structure RefreshTimely (h : LeaseHandle T) (call : RefreshCall) (pc : RefreshPc T) : Prop where
  bare : call.started = none → h.held = none
  renews : ∀ started, call.started = some started →
    started ≤ now ∧ call.ttl = none ∧ h.held.isSome = true
  extends_recorded : ∀ payload ttl, pc.prepared = some (payload, ttl) → h.Counts →
    h.recorded ≤ payload.dateExpires ∨ h.recorded ≤ now
  extends_started : ∀ payload ttl, pc.prepared = some (payload, ttl) →
    ∀ started, call.started = some started → ttl = h.ttl ∧ started + ttl ≤ payload.dateExpires

def PcTimely (handle : Option (LeaseHandle T)) : LeasePc T → Prop
  | .idle => True
  | .acquire attempt _ => handle = none ∧ attempt.now ≤ now
  | .refresh call pc => ∃ h, handle = some h ∧ RefreshTimely now h call pc
  | .retake started _ payload => ∃ h, handle = some h ∧ started + h.ttl ≤ payload.dateExpires ∧
      payload.dateExpires ≤ now + h.ttl
  | .release _ => ∃ h, handle = some h ∧ h.givenUp = true

structure CallTimely (holder : T) (handle : Option (LeaseHandle T)) (pc : LeasePc T) : Prop where
  timely : ∀ h, handle = some h → HandleTimely now kv i h
  point : PcTimely now handle pc
  request : ∀ request, pc.request holder i = some request → RequestTimely now kv handle request

end Timely

section Later

variable {now now' : Int} {kv kv' : KvKey (LeaseEntry T ι)} {i j : ι} {holder : T}
  {handle handle' : Option (LeaseHandle T)} {pc : LeasePc T} {h h' : LeaseHandle T}
  {request : KvRequest (LeaseEntry T ι)} {answer : KvAnswer (LeaseEntry T ι)}

lemma RequestTimely.mono (hre : RequestTimely now kv handle request) (hk : Later kv kv')
    (hle : now ≤ now') : RequestTimely now' kv' handle request := by
  cases request with
  | update _ r =>
    obtain hstale | ⟨h, env, hh, henv, hr, he⟩ := hre
    · exact .inl ((hk r _ hstale).imp fun w hw => hw.mono hle)
    refine .inr ⟨h, env, hh, henv, hr, fun hq hc => ?_⟩
    exact (he hq hc).imp_right fun ho => Int.le_trans ho hle
  | _ => exact hre

lemma RefreshTimely.mono {call : RefreshCall} {pc : RefreshPc T} (hr : RefreshTimely now h call pc)
    (hle : now ≤ now') : RefreshTimely now' h call pc where
  __ := hr
  renews started ht :=
    ⟨Int.le_trans (hr.renews started ht).1 hle, (hr.renews started ht).2⟩
  extends_recorded pay ttl hpr hc :=
    (hr.extends_recorded pay ttl hpr hc).imp_right fun ho => Int.le_trans ho hle

lemma PcTimely.mono (hpc : PcTimely now handle pc) (hle : now ≤ now') :
    PcTimely now' handle pc := by
  cases pc with
  | acquire => exact ⟨hpc.1, Int.le_trans hpc.2 hle⟩
  | refresh =>
    obtain ⟨h, hh, hr⟩ := hpc
    exact ⟨h, hh, hr.mono hle⟩
  | retake =>
    obtain ⟨h, hh, ht, ho⟩ := hpc
    exact ⟨h, hh, ht, by omega⟩
  | _ => exact hpc

/-- The handle after a step of its own: what it gave up stays given up, its revision does not go
back, and only a new revision brings a new expiry. -/
structure Follows (h h' : LeaseHandle T) : Prop where
  givenUp : h.givenUp = true → h'.givenUp = true
  revision : h.revision ≤ h'.revision
  recorded : h.revision = h'.revision → h'.Counts → h.Counts ∧ h'.recorded = h.recorded

lemma Follows.refl (h : LeaseHandle T) : Follows h h :=
  ⟨id, le_rfl, fun _ hc => ⟨hc, rfl⟩⟩

lemma RequestTimely.follows (hre : RequestTimely now kv (some h) request)
    (ho : Follows h h') : RequestTimely now kv (some h') request := by
  cases request with
  | update =>
    obtain hstale | ⟨h₀, env, hh, henv, hr, he⟩ := hre
    · exact .inl hstale
    cases hh
    refine .inr ⟨h', env, rfl, henv, le_trans hr ho.revision, fun hq hc => ?_⟩
    have hsa : h.revision = h'.revision := le_antisymm ho.revision (hq ▸ hr)
    obtain ⟨hc', hrc⟩ := ho.recorded hsa hc
    rw [hrc]
    exact he (hq.trans hsa.symm) hc'
  | delete =>
    obtain ⟨h₀, hh, hg⟩ := hre
    cases hh
    exact ⟨h', rfl, ho.givenUp hg⟩
  | _ => trivial

lemma RequestTimely.of_none (hr : RequestTimely now kv none request) :
    RequestTimely now kv handle request := by
  cases request with
  | update =>
    obtain hstale | ⟨h₀, env, hh, -⟩ := hr
    · exact .inl hstale
    · cases hh
  | delete =>
    obtain ⟨h₀, hh, -⟩ := hr
    cases hh
  | _ => trivial

/-! ### Requests against what others rely on -/

lemma RequestTimely.keeps (hre : RequestTimely now kv (some h) request)
    (hrev : h.revision ≤ kv.revision) (hc : h.Counts) : Keeps now kv h.recorded request := by
  cases request with
  | update =>
    intro hq
    obtain hstale | ⟨h₀, env, hh, henv, hr, he⟩ := hre
    · exact .inl hstale
    cases hh
    exact .inr ⟨env, henv, he (le_antisymm hr (hq ▸ hrev)) hc⟩
  | delete =>
    obtain ⟨h₀, hh, hg⟩ := hre
    cases hh
    rw [hc.2] at hg
    cases hg
  | _ => trivial

lemma RequestTimely.keeps_of_lt (he : RequestTimely now kv handle request)
    (hlt : ∀ h, handle = some h → h.revision < kv.revision ∧ h.Counts) (e : Int) :
    Keeps now kv e request := by
  cases request with
  | update =>
    intro hq
    obtain hstale | ⟨h₀, env, hh, -, hr, -⟩ := he
    · exact .inl hstale
    · exact absurd (hq ▸ hr) (not_le.2 (hlt h₀ hh).1)
  | delete =>
    obtain ⟨h₀, hh, hg⟩ := he
    rw [(hlt h₀ hh).2.2] at hg
    cases hg
  | _ => trivial

lemma HandleTimely.mono (hh : HandleTimely now kv i h) (hle : now ≤ now') :
    HandleTimely now' kv i h where
  covered hc := (hh.covered hc).mono hle
  revision := hh.revision
  held held hheld := ⟨(hh.held held hheld).1, by have := (hh.held held hheld).2; omega⟩

lemma HandleTimely.serves (hh : HandleTimely now kv i h) (he : kv.Serves request kv' answer)
    (hl : RequestLawful WrittenBy kv now j request)
    (hr : j = i → RequestTimely now kv (some h) request) : HandleTimely now kv' i h where
  covered hc := (hh.covered hc).serves he hl fun hi =>
    (hr hi).keeps hh.revision hc
  revision := le_trans hh.revision he.revision_le
  held := hh.held

variable (ha : AnswerTimely now kv i handle pc answer)
include ha

lemma AnswerTimely.mono (hle : now ≤ now') : AnswerTimely now' kv i handle pc answer := by
  unfold AnswerTimely at ha ⊢
  split at ha
  · exact ha
  · exact ⟨ha.1, ha.2.1, fun e he hc => (ha.2.2 e he hc).mono hle⟩
  · trivial

lemma AnswerTimely.serves {ans' : KvAnswer (LeaseEntry T ι)}
    (hse : kv.Serves request kv' ans') (hl : RequestLawful WrittenBy kv now j request)
    (hre : j = i → RequestTimely now kv handle request) :
    AnswerTimely now kv' i handle pc answer := by
  unfold AnswerTimely at ha ⊢
  split at ha
  · exact ⟨le_trans ha.1 hse.revision_le, ha.2⟩
  · obtain ⟨hr, hlt, hcov⟩ := ha
    refine ⟨le_trans hr hse.revision_le, hlt, fun e he hc => ?_⟩
    refine (hcov e he hc).serves hse hl fun hi => ?_
    refine (hre hi).keeps_of_lt (fun h hh => ⟨?_, hc h hh⟩) e
    exact lt_of_lt_of_le (hlt h hh) hr
  · trivial

lemma AnswerTimely.lapse {v : LeaseEntry T ι} (hv : kv.value = some v) (hstale : v.Stale now) :
    AnswerTimely now (kv.push none) i handle pc answer := by
  have hle : kv.revision ≤ (kv.push none).revision := Nat.le_succ_of_le kv.revision_le
  unfold AnswerTimely at ha ⊢
  split at ha
  · exact ⟨le_trans ha.1 hle, ha.2⟩
  · refine ⟨le_trans ha.1 hle, ha.2.1, fun e he hc => ?_⟩
    exact (ha.2.2 e he hc).lapse hv hstale
  · trivial

omit ha

lemma CallTimely.answered (h : CallTimely now kv i holder handle pc)
    (hrequest : pc.request holder i = some request) (hse : kv.Serves request kv' answer) :
    AnswerTimely now kv' i handle pc answer := by
  have hr : ∀ v, request.writes = some v →
      AnswerTimely now (kv.push (some v)) i handle pc (.written (some (kv.sequence + 1))) := by
    intro v hws
    obtain ⟨hw, env, henv, hx⟩ := expiry_of_request hrequest hws
    refine ⟨le_rfl, fun h' hh => ?_, fun e he _ => ?_⟩
    · exact Nat.lt_succ_of_le (le_trans (h.timely h' hh).revision kv.revision_le)
    rw [hx] at he
    cases he
    exact covered_push hw henv (Int.le_refl _)
  cases hse with
  | get =>
    cases hen : kv.getEntry with
    | none => trivial
    | some =>
      obtain ⟨v, -, rfl⟩ := Option.map_eq_some_iff.1 hen
      exact ⟨le_rfl, fun h' hh => (h.timely h' hh).revision⟩
  | create v | update v => exact hr v rfl
  | _ => trivial

end Later

end ThreeTears
