import ThreeTears.Coordination.Lease

/-!
# What a lease's calls do

Every way in which a call goes on with an answer, and the requests that are with the bucket or on
their way to it: those that calls wait for, and the writes of calls that were given up or sent
again.
-/

namespace ThreeTears

open Function Option

variable {T ι : Type*} [DecidableEq T]

def RefreshPc.prepared : RefreshPc T → Option (Envelope T × Int)
  | .reading => none
  | .swapping payload ttl _ _ | .rereading payload ttl _ | .reswapping payload ttl _ =>
    some (payload, ttl)

inductive Resumes (holder : T) (now : Int) : Option (LeaseHandle T) → LeasePc T →
    KvAnswer (LeaseEntry T ι) → Option (LeaseHandle T) → LeasePc T → Prop
  | acquired (handle : Option (LeaseHandle T)) (attempt : Attempt) (pc : AcquirePc) (r : Nat) :
    Resumes holder now handle (.acquire attempt pc) (.written (some r))
      (some (attempt.handle r)) .idle
  | recheck (handle : Option (LeaseHandle T)) (attempt : Attempt) (pc pc' : AcquirePc)
      (answer : KvAnswer (LeaseEntry T ι)) (h : ∀ revision, pc' ≠ .reclaiming revision) :
    Resumes holder now handle (.acquire attempt pc) answer handle (.acquire attempt pc')
  | reclaim (handle : Option (LeaseHandle T)) (attempt : Attempt) (v : LeaseEntry T ι)
      (env : Envelope T) (r : Nat) (hv : v.envelope = some env)
      (hstale : env.dateExpires ≤ attempt.now) :
    Resumes holder now handle (.acquire attempt .judging) (.entry (some (v, r))) handle
      (.acquire attempt (.reclaiming r))
  | refused (handle : Option (LeaseHandle T)) (attempt : Attempt) (pc : AcquirePc)
      (answer : KvAnswer (LeaseEntry T ι)) :
    Resumes holder now handle (.acquire attempt pc) answer handle .idle
  | swap (h : LeaseHandle T) (call : RefreshCall) (v : LeaseEntry T ι) (env : Envelope T)
      (observed : Nat) (unanswered : Option (Envelope T)) (hv : v.envelope = some env)
      (hholder : env.holder = holder) (hun : unanswered = none ∨ unanswered = h.inFlight) :
    Resumes holder now (some h) (.refresh call .reading) (.entry (some (v, observed)))
      (some { h with
        revision := h.fence call.adopt env observed
        inFlight := some ⟨holder, now + call.ttl.getD h.ttl, env.dateAcquired⟩ })
      (.refresh call (.swapping ⟨holder, now + call.ttl.getD h.ttl, env.dateAcquired⟩
        (call.ttl.getD h.ttl) unanswered (h.fence call.adopt env observed)))
  | swapped (h : LeaseHandle T) (call : RefreshCall) (pc : RefreshPc T) (payload : Envelope T)
      (ttl : Int) (r : Nat) (hpc : pc.prepared = some (payload, ttl)) :
    Resumes holder now (some h) (.refresh call pc) (.written (some r))
      (some (call.started.elim { h with inFlight := none, revision := r, ttl := ttl }
        ({ h with inFlight := none, revision := r, ttl := ttl } : LeaseHandle T).renewed)) .idle
  | reread (h : LeaseHandle T) (call : RefreshCall) (payload unanswered : Envelope T) (ttl : Int)
      (revision : Nat) :
    Resumes holder now (some h) (.refresh call (.swapping payload ttl (some unanswered) revision))
      (.written none) (some { h with inFlight := some unanswered })
      (.refresh call (.rereading payload ttl unanswered))
  | reswap (h : LeaseHandle T) (call : RefreshCall) (payload unanswered : Envelope T) (ttl : Int)
      (v : LeaseEntry T ι) (observed : Nat) (hv : v.envelope = some unanswered) :
    Resumes holder now (some h) (.refresh call (.rereading payload ttl unanswered))
      (.entry (some (v, observed))) (some { h with revision := observed, inFlight := some payload })
      (.refresh call (.reswapping payload ttl observed))
  | lost (h : LeaseHandle T) (call : RefreshCall) (pc : RefreshPc T)
      (answer : KvAnswer (LeaseEntry T ι)) (inFlight : Option (Envelope T)) (reason : LossReason)
      (hin : inFlight = none ∨ inFlight = h.inFlight) :
    Resumes holder now (some h) (.refresh call pc) answer
      (some (({ h with inFlight := inFlight } : LeaseHandle T).tell reason)) .idle
  | retake (h : LeaseHandle T) (call : RefreshCall) (pc : RefreshPc T)
      (answer : KvAnswer (LeaseEntry T ι)) (reason : LossReason) (started : Int)
      (hstarted : call.started = some started) :
    Resumes holder now (some h) (.refresh call pc) answer
      (some { h with inFlight := some ⟨holder, now + h.ttl, now⟩ })
      (.retake started reason ⟨holder, now + h.ttl, now⟩)
  | retook (h : LeaseHandle T) (started : Int) (reason : LossReason) (payload : Envelope T)
      (r : Nat) :
    Resumes holder now (some h) (.retake started reason payload) (.written (some r))
      (some (({ h with
        inFlight := none
        revision := r
        dateExpires := payload.dateExpires } : LeaseHandle T).renewed started)) .idle
  | unretaken (h : LeaseHandle T) (started : Int) (reason : LossReason) (payload : Envelope T) :
    Resumes holder now (some h) (.retake started reason payload) (.written none)
      (some (({ h with inFlight := none } : LeaseHandle T).tell reason)) .idle
  | delete (h : LeaseHandle T) (v : LeaseEntry T ι) (env : Envelope T) (observed : Nat)
      (hv : v.envelope = some env) (hholder : env.holder = holder)
      (hpos : h.fence false env observed ≠ 0) :
    Resumes holder now (some h) (.release .reading) (.entry (some (v, observed))) (some h)
      (.release (.deleting (h.fence false env observed)))
  | released (h : LeaseHandle T) (pc : ReleasePc) (answer : KvAnswer (LeaseEntry T ι)) :
    Resumes holder now (some h) (.release pc) answer (some { h with released := true }) .idle

variable {holder : T} {now : Int} {handle handle' : Option (LeaseHandle T)} {pc' : LeasePc T}
  {ans : KvAnswer (LeaseEntry T ι)}

lemma resumes_of_tryOnce {attempt : Attempt} {pc : AcquirePc}
    (hr : resume holder now handle (.acquire attempt pc) ans = some (handle', pc')) :
    Resumes holder now handle (.acquire attempt pc) ans handle' pc' := by
  obtain ⟨next, hnext, he⟩ := map_eq_some_iff.1 hr
  unfold tryOnce at hnext
  split at hnext
  case h_1 | h_5 | h_9 =>
    cases hnext
    cases he
    exact .acquired _ _ _ _
  case h_2 | h_3 | h_4 | h_6 =>
    cases hnext
    cases he
    exact .recheck _ _ _ _ _ (by simp)
  case h_7 | h_10 =>
    cases hnext
    cases he
    exact .refused _ _ _ _
  case h_8 =>
    split at hnext
    · cases hnext
      cases he
      exact .refused _ _ _ _
    split_ifs at hnext with hlive <;> cases hnext
    · cases he
      exact .refused _ _ _ _
    cases he
    exact .reclaim _ _ _ _ _ ‹_› (Int.not_lt.1 hlive)
  case h_11 => cases hnext

lemma resumes_of_raised {call : RefreshCall} {pc : RefreshPc T} {h : LeaseHandle T}
    {inFlight : Option (Envelope T)} {rea : LossReason}
    (hin : inFlight = none ∨ inFlight = h.inFlight)
    (he : (match ({ h with inFlight := inFlight } : LeaseHandle T).retakes call with
      | none => (some (({ h with inFlight := inFlight } : LeaseHandle T).tell rea), .idle)
      | some sta =>
        (some { h with inFlight := some ⟨holder, now + h.ttl, now⟩ },
          .retake sta rea ⟨holder, now + h.ttl, now⟩)) = (handle', pc')) :
    Resumes holder now (some h) (.refresh call pc) ans handle' pc' := by
  cases hr : ({ h with inFlight := inFlight } : LeaseHandle T).retakes call with
  | none =>
    rw [hr] at he
    cases he
    exact .lost h call pc ans inFlight rea hin
  | some sta =>
    rw [hr] at he
    cases he
    refine .retake h call pc ans rea sta ?_
    simp only [LeaseHandle.retakes] at hr
    split at hr
    · split_ifs at hr
      exact hr
    · cases hr

lemma resumes_of_refreshHandle {call : RefreshCall} {pc : RefreshPc T}
    (hr : resume holder now handle (.refresh call pc) ans = some (handle', pc')) :
    Resumes holder now handle (.refresh call pc) ans handle' pc' := by
  obtain ⟨h, rfl, hr⟩ := bind_eq_some_iff.1 hr
  obtain ⟨next, hnext, he⟩ := map_eq_some_iff.1 hr
  unfold refreshHandle at hnext
  split at hnext
  case h_1 =>
    cases hnext
    exact resumes_of_raised (.inr rfl) he
  case h_2 =>
    split at hnext
    · cases hnext
      exact resumes_of_raised (.inr rfl) he
    split_ifs at hnext with hholder hd <;> cases hnext
    · exact resumes_of_raised (.inr rfl) he
    · cases he
      exact .swap h call _ _ _ _ ‹_› (not_not.1 hholder) (.inl rfl)
    cases he
    exact .swap h call _ _ _ _ ‹_› (not_not.1 hholder) (.inr rfl)
  case h_3 | h_4 =>
    cases hnext
    cases he
    exact .swapped h call _ _ _ _ rfl
  case h_5 =>
    cases hnext
    cases he
    exact .reread h call _ _ _ _
  case h_6 =>
    cases hnext
    exact resumes_of_raised (.inl rfl) he
  case h_7 =>
    split at hnext
    · cases hnext
      exact resumes_of_raised (.inr rfl) he
    split_ifs at hnext with hv <;> cases hnext
    · cases he
      exact .reswap h call _ _ _ _ _ hv
    · exact resumes_of_raised (.inr rfl) he
  case h_8 =>
    cases hnext
    exact resumes_of_raised (.inl rfl) he
  case h_9 => cases hnext

theorem resumes_of_resume {pc : LeasePc T}
    (hr : resume holder now handle pc ans = some (handle', pc')) :
    Resumes holder now handle pc ans handle' pc' := by
  cases pc with
  | idle => cases hr
  | acquire => exact resumes_of_tryOnce hr
  | refresh => exact resumes_of_refreshHandle hr
  | retake sta rea pay =>
    cases ans with
    | written r =>
      cases r with
      | none =>
        obtain ⟨h, rfl, he⟩ := map_eq_some_iff.1 hr
        cases he
        exact .unretaken h sta rea pay
      | some r =>
        obtain ⟨h, rfl, he⟩ := map_eq_some_iff.1 hr
        cases he
        exact .retook h sta rea pay r
    | _ => cases hr
  | release =>
    obtain ⟨h, rfl, hr⟩ := bind_eq_some_iff.1 hr
    obtain ⟨next, hnext, he⟩ := map_eq_some_iff.1 hr
    unfold releaseHandle at hnext
    split at hnext
    case h_1 | h_3 =>
      cases hnext
      cases he
      exact .released h _ _
    case h_2 =>
      split at hnext
      · cases hnext
        cases he
        exact .released h _ _
      split_ifs at hnext with hl <;> cases hnext
      · cases he
        exact .released h _ _
      cases he
      obtain ⟨hholder, hpos⟩ := not_or.1 hl
      exact .delete h _ _ _ ‹_› (not_not.1 hholder) hpos
    case h_4 => cases hnext

/-- How acquisition `i` begins a call. -/
inductive Begins (now : Int) (i : ι) : LeaseAct ι → Option (LeaseHandle T) →
    Option (LeaseHandle T) → LeasePc T → Prop
  | acquire (ttl : Int) (hold : Option Bool) :
    Begins now i (.acquire i ttl hold) none none (.acquire ⟨ttl, now, hold⟩ .creating)
  | refresh (h : LeaseHandle T) (ttl : Option Int) (adopt : Bool) (hheld : h.held = none) :
    Begins now i (.refresh i ttl adopt) (some h) (some h) (.refresh ⟨ttl, adopt, none⟩ .reading)
  | renew (h : LeaseHandle T) (held : HeldLease) (hheld : h.held = some held) :
    Begins now i (.renew i) (some h) (some h) (.refresh ⟨none, held.retake, some now⟩ .reading)
  | release (h : LeaseHandle T) :
    Begins now i (.release i) (some h) (some { h with givenUp := true }) (.release .reading)

namespace LeaseRun

variable [DecidableEq ι] {holder : ι → T} {s s' : LeaseRun T ι} {a : LeaseAct ι}

inductive Moves (holder : ι → T) (s : LeaseRun T ι) : LeaseAct ι → LeaseRun T ι → Prop
  | tick (time : Nat) : Moves holder s (.tick time) { s with now := s.now + time }
  | lapse (v : LeaseEntry T ι) (env : Envelope T) (hv : s.kv.value = some v)
      (henv : v.envelope = some env) (hexpired : env.dateExpires ≤ s.now) :
    Moves holder s .lapse { s with kv := s.kv.push none }
  | begin (a : LeaseAct ι) (i : ι) (handle : Option (LeaseHandle T)) (pc : LeasePc T)
      (hidle : (s.calls i).pc = .idle) (hbegins : Begins s.now i a (s.handles i) handle pc) :
    Moves holder s a
      { s with
        handles := update s.handles i handle
        calls := update s.calls i ⟨pc, none⟩ }
  | tell (a : LeaseAct ι) (i : ι) (h : LeaseHandle T) (reason : LossReason)
      (hact : a = .expire i ∨ a = .maxHold i) (hhandle : s.handles i = some h) :
    Moves holder s a { s with handles := update s.handles i (some (h.tell reason)) }
  | serve (i : ι) (refuse : Bool) (request : KvRequest (LeaseEntry T ι))
      (kv : KvKey (LeaseEntry T ι)) (answer : KvAnswer (LeaseEntry T ι))
      (hanswer : (s.calls i).answer = none)
      (hrequest : (s.calls i).pc.request (holder i) i = some request)
      (hserves : s.kv.Serves request kv answer) :
    Moves holder s (.serve i refuse)
      { s with
        kv := kv
        calls := update s.calls i ⟨(s.calls i).pc, some answer⟩ }
  | resend (i : ι) (request : KvRequest (LeaseEntry T ι))
      (hrequest : (s.calls i).pc.request (holder i) i = some request) :
    Moves holder s (.resend i) { s with late := s.late ++ [(i, request)] }
  | hear (i : ι) (answer : KvAnswer (LeaseEntry T ι)) (handle : Option (LeaseHandle T))
      (pc : LeasePc T) (hanswer : (s.calls i).answer = some answer)
      (hresumes : Resumes (holder i) s.now (s.handles i) (s.calls i).pc answer handle pc) :
    Moves holder s (.hear i)
      { s with
        handles := update s.handles i handle
        calls := update s.calls i ⟨pc, none⟩ }
  | giveUp (i : ι) (late : List (ι × KvRequest (LeaseEntry T ι)))
      (hlate : late = s.late ∨ ∃ request, (s.calls i).answer = none ∧ request.isWrite = true ∧
        (s.calls i).pc.request (holder i) i = some request ∧ late = s.late ++ [(i, request)]) :
    Moves holder s (.giveUp i)
      { s with calls := update s.calls i ⟨.idle, none⟩, late := late }
  | land (n : Nat) (refuse : Bool) (i : ι) (request : KvRequest (LeaseEntry T ι))
      (kv : KvKey (LeaseEntry T ι)) (answer : KvAnswer (LeaseEntry T ι))
      (hn : s.late[n]? = some (i, request)) (hserves : s.kv.Serves request kv answer) :
    Moves holder s (.land n refuse) { s with kv := kv, late := s.late.eraseIdx n }

omit [DecidableEq T] in
lemma begin_eq_some_iff {i : ι} {handle : Option (LeaseHandle T)} {pc : LeasePc T} :
    s.begin i handle pc = some s' ↔ (s.calls i).pc = .idle ∧ s' = { s with
        handles := update s.handles i handle
        calls := update s.calls i ⟨pc, none⟩ } := by
  simp only [begin]
  cases hpc : (s.calls i).pc <;> simp [eq_comm]

lemma moves_of_begin {i : ι} {before handle : Option (LeaseHandle T)} {pc : LeasePc T}
    (he : s.handles i = before) (hbegins : Begins s.now i a before handle pc)
    (hb : s.begin i handle pc = some s') : Moves holder s a s' := by
  subst he
  obtain ⟨hidle, rfl⟩ := begin_eq_some_iff.1 hb
  exact .begin a i handle pc hidle hbegins

lemma moves_of_markLost {i : ι} {rea : LossReason} {when : HeldLease → Bool}
    (hact : a = .expire i ∨ a = .maxHold i) (h : s.markLost i rea when = some s') :
    Moves holder s a s' := by
  simp only [markLost] at h
  split at h
  · next hh =>
    split_ifs at h
    cases h
    exact .tell a i _ rea hact hh
  · cases h

theorem moves_of_step (ht : step holder s a = some s') : Moves holder s a s' := by
  cases a with simp only [step] at ht
  | tick time =>
    cases ht
    exact .tick time
  | lapse =>
    split at ht
    · next env henv =>
      split_ifs at ht with hexpired
      cases ht
      obtain ⟨v, hv, henv⟩ := bind_eq_some_iff.1 henv
      exact .lapse v env hv henv hexpired
    · cases ht
  | acquire _ ttl hold =>
    split at ht
    · next hnone => exact moves_of_begin hnone (.acquire ttl hold) ht
    · cases ht
  | refresh _ ttl adopt =>
    split at ht
    · next h hsome =>
      simp only [ite_none_right_eq_some] at ht
      exact moves_of_begin hsome (.refresh h ttl adopt (isNone_iff_eq_none.1 ht.1))
        ht.2
    · cases ht
  | renew =>
    split at ht
    · next h hsome =>
      split at ht
      · next held hheld =>
        simp only [ite_none_right_eq_some] at ht
        exact moves_of_begin hsome (.renew h held hheld) ht.2
      · cases ht
    · cases ht
  | expire => exact moves_of_markLost (.inl rfl) ht
  | maxHold => exact moves_of_markLost (.inr rfl) ht
  | release =>
    split at ht
    · next h hsome =>
      split_ifs at ht
      exact moves_of_begin hsome (.release h) ht
    · cases ht
  | serve i refuse =>
    split at ht <;> cases ht
    · next req hanswer hr =>
      exact .serve i refuse req _ _ hanswer hr (s.kv.serves_serve refuse req)
  | resend i =>
    split at ht <;> try cases ht
    · next req _ hr =>
      split_ifs at ht
      cases ht
      exact .resend i req hr
  | hear i =>
    obtain ⟨ans, hanswer, ht⟩ := bind_eq_some_iff.1 ht
    obtain ⟨next, hnext, rfl⟩ := map_eq_some_iff.1 ht
    exact .hear i ans next.1 next.2 hanswer (resumes_of_resume hnext)
  | giveUp i =>
    obtain ⟨req, hr, rfl⟩ := map_eq_some_iff.1 ht
    refine .giveUp i _ ?_
    split_ifs with hlate
    · exact .inr ⟨req, isNone_iff_eq_none.1 hlate.1, hlate.2, hr, rfl⟩
    · exact .inl rfl
  | land n refuse =>
    obtain ⟨⟨i, req⟩, hn, rfl⟩ := map_eq_some_iff.1 ht
    exact .land n refuse i req _ _ hn (s.kv.serves_serve refuse req)

/-! ### Requests on their way -/

/-- A request of acquisition `i` that the bucket may still take. -/
def Outstanding (holder : ι → T) (s : LeaseRun T ι) (i : ι)
    (request : KvRequest (LeaseEntry T ι)) : Prop :=
  (s.calls i).answer = none ∧ (s.calls i).pc.request (holder i) i = some request ∨
    (i, request) ∈ s.late

end LeaseRun

end ThreeTears
