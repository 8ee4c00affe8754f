import ThreeTears.Collections.DerivedFlight
import ThreeTears.Lib.Families

/-!
# One derivation of a key at a time

Two arguments keep derivations of one key apart, and each is enough. Under a build lock that no task
loses while it works, whoever derives or pauses is the one the lock names. As long as nobody comes
to a key with a second busy gate, whoever derives owns the key's one busy gate.
-/

namespace ThreeTears

open Function Option StepSystem FlightRun AsyncLock

namespace FlightRun

variable {K L ι : Type*} [DecidableEq K] [DecidableEq L] [DecidableEq ι]
  {s s' : FlightRun K L ι} {i j : ι} {key : K} {call : Option (FlightCall K)}

/-! ### Behind the build lock -/

/-- A task that derives a key, or pauses its derivation, is the one the build lock names. -/
def Locked (lockKey : K → L) (s : FlightRun K L ι) : Prop :=
  ∀ i call key, s.calls i = some call → call.works = some key →
    s.holder (lockKey key) = some (.task i)

variable {lockKey : K → L}

section

variable (h : s.Locked lockKey)
include h

variable (hcs : s'.calls = update s.calls i call)
include hcs

omit [DecidableEq K] [DecidableEq L] in
lemma Locked.move (hholder : s'.holder = s.holder)
    (hw : ∀ c key, call = some c → c.works = some key →
      s.holder (lockKey key) = some (.task i)) : s'.Locked lockKey := by
  intro j c key hj hc
  rw [hcs] at hj
  rw [hholder]
  obtain ⟨rfl, hcall⟩ | ⟨-, hj⟩ := of_update_eq hj
  · exact hw c key hcall hc
  · exact h j c key hj hc

omit [DecidableEq K] [DecidableEq L] in
lemma Locked.rest (hholder : s'.holder = s.holder) (hcall : call.bind FlightCall.works = none) :
    s'.Locked lockKey := by
  refine h.move hcs hholder fun c key hc hw => ?_
  rw [hc, bind_some, hw] at hcall
  cases hcall

omit hcs

variable {old : FlightCall K}

omit [DecidableEq K] [DecidableEq L] in
lemma Locked.goOn (hold : s.calls i = some old)
    (hcs : s'.calls = update s.calls i call) (hholder : s'.holder = s.holder)
    (hcall : ∀ c, call = some c → c.works = old.works) : s'.Locked lockKey := by
  refine h.move hcs hholder fun c key hc hw => ?_
  exact h i old key hold ((hcall c hc).symm.trans hw)

variable {c : FlightCall K}

omit [DecidableEq K] in
lemma Locked.lockFor (hfree : s.holder (lockKey key) = none) (hw : c.works = some key) :
    (s.lockFor i (lockKey key) c).Locked lockKey := by
  intro j c' key' hj hc
  simp only [FlightRun.lockFor, setCall, update_apply] at hj ⊢
  split_ifs at hj with hi
  · cases hj
    rw [hw, Option.some.injEq] at hc
    rw [if_pos (congrArg lockKey hc.symm), hi]
  have hh := h j c' key' hj hc
  rw [if_neg, hh]
  intro he
  rw [he, hfree] at hh
  cases hh

omit [DecidableEq K] [DecidableEq ι] in
lemma Locked.setHolder {lock : L} {holder : Option (BuildHolder ι)}
    (hidle : ∀ i c, s.holder lock = some (.task i) → s.calls i = some c → c.works = none) :
    Locked lockKey { s with holder := update s.holder lock holder } := by
  intro j c key hj hc
  have hh := h j c key hj hc
  dsimp only
  rw [update_apply, if_neg, hh]
  intro he
  rw [he] at hh
  rw [hidle j c hh hj] at hc
  cases hc

omit [DecidableEq K] in
lemma Locked.unlock {lock : L} (hcall : s.calls i = some c) (hidle : c.works = none) :
    (s.unlock i lock).Locked lockKey := by
  unfold FlightRun.unlock
  split_ifs with hown
  · refine h.setHolder fun j c hj hc => ?_
    rw [hown] at hj
    cases hj
    cases hcall.symm.trans hc
    exact hidle
  · exact h

variable {gate : Nat}

omit [DecidableEq L] in
lemma Locked.finish {held : Bool} : (s.finish i key gate held).Locked lockKey := by
  unfold FlightRun.finish
  split_ifs <;> exact h.rest (i := i) rfl rfl rfl

lemma Locked.fetchStep {pc : FlightPc} (hcall : s.calls i = some (.fetch key pc))
    (ht : s.fetchStep i key (some lockKey) pc = some s') : s'.Locked lockKey := by
  cases pc with
  | loading =>
    cases ht
    split_ifs
    · exact h.rest (i := i) rfl rfl rfl
    refine h.rest (i := i) rfl rfl ?_
    split_ifs <;> rfl
  | queued =>
    simp only [FlightRun.fetchStep] at ht
    split at ht
    · cases ht
      exact h.rest (i := i) rfl rfl rfl
    split_ifs at ht
    cases ht
    exact h.rest (i := i) rfl rfl rfl
  | rechecking =>
    simp only [FlightRun.fetchStep, isNone_some, Bool.false_eq_true, if_false] at ht
    split_ifs at ht <;> cases ht <;> exact h.rest (i := i) rfl rfl rfl
  | locking =>
    simp only [FlightRun.fetchStep, map_some, Option.some.injEq] at ht
    subst ht
    split_ifs with hfree
    · exact h.lockFor hfree rfl
    · exact h.rest (i := i) rfl rfl rfl
  | looking =>
    cases ht
    split_ifs
    · exact h.finish
    · exact h.goOn hcall rfl rfl (by rintro c ⟨⟩; rfl)
  | computing => cases ht
  | saving =>
    cases ht
    exact Locked.finish (s := { s with stored := update s.stored key true }) h
  | waiting =>
    cases ht
    split_ifs
    · exact h.rest (i := i) rfl rfl rfl
    · exact h
  | unlocking =>
    cases ht
    exact (h.unlock hcall rfl).rest (i := i) rfl rfl rfl

lemma Locked.callStep (hcall : s.calls i = some c)
    (ht : s.callStep i (some lockKey) c = some s') : s'.Locked lockKey := by
  cases c with
  | fetch => exact h.fetchStep hcall ht
  | pausing =>
    simp only [FlightRun.callStep, map_some, Option.some.injEq] at ht
    subst ht
    split_ifs with hfree
    · exact h.lockFor hfree rfl
    · exact h.rest (i := i) rfl rfl rfl
  | paused _ held =>
    cases ht
    refine h.rest (i := i) rfl rfl ?_
    cases held <;> rfl
  | unpausing =>
    cases ht
    exact (h.unlock hcall rfl).rest (i := i) rfl rfl rfl

omit [DecidableEq L] in
lemma Locked.cancelCall : (s.cancelCall i c).Locked lockKey := by
  cases c with
  | fetch _ pc =>
    cases pc with
    | looking gate held | computing gate held | saving gate held => exact h.finish
    | queued =>
      simp only [FlightRun.cancelCall]
      split_ifs
      · exact h.rest (i := i) rfl rfl rfl
      · exact h
    | _ => exact h.rest (i := i) rfl rfl rfl
  | paused _ held =>
    refine h.rest (i := i) rfl rfl ?_
    cases held <;> rfl
  | _ => exact h.rest (i := i) rfl rfl rfl

theorem Locked.step {a : FlightAct K L ι} (hh : s.sheltered (some lockKey) .buildLock a)
    (ht : s.step (some lockKey) a = some s') : s'.Locked lockKey := by
  cases a with (simp only [FlightRun.step] at ht; try cases ht)
  | fetch i =>
    split_ifs at ht
    cases ht
    exact h.rest (i := i) rfl rfl rfl
  | pause i =>
    simp only [isNone_some, Bool.false_eq_true, if_false] at ht
    split_ifs at ht
    cases ht
    exact h.rest (i := i) rfl rfl rfl
  | go =>
    rw [bind_eq_some_iff] at ht
    obtain ⟨c, hcall, ht⟩ := ht
    exact h.callStep hcall ht
  | computed =>
    split at ht
    case h_1 key gate held hcall =>
      cases ht
      split_ifs
      · exact h.goOn hcall rfl rfl (by rintro c ⟨⟩; rfl)
      · exact h.finish
    case h_2 => cases ht
  | refused i => split at ht <;> cases ht <;> exact h.rest (i := i) rfl rfl rfl
  | retry =>
    split at ht
    case h_1 key gate _ hcall hsome =>
      cases hsome
      split_ifs at ht with hfree <;> cases ht
      · exact h.lockFor hfree rfl
      · exact h
    case h_2 => cases ht
  | cancel =>
    rw [map_eq_some_iff] at ht
    obtain ⟨c, -, rfl⟩ := ht
    exact h.cancelCall
  | lapse =>
    refine h.setHolder fun i c hholder hcall => ?_
    simpa [sheltered, inUse, hholder, hcall] using hh
  | peerTake =>
    split_ifs at ht with hfree
    cases ht
    refine h.setHolder fun i c hholder => ?_
    rw [hfree] at hholder
    cases hholder
  | peerLet =>
    split_ifs at ht with he
    cases ht
    refine h.setHolder fun i c hholder => ?_
    rw [he] at hholder
    cases hholder
  | drop => exact h

end

/-! ### Behind the gates -/

/-- A task in a gate owns it, and a key has one busy gate at most. -/
structure Gated (s : FlightRun K L ι) : Prop where
  inside : ∀ i call gate, s.calls i = some call → call.inside = some gate →
    (s.gates gate).owner = some i
  unique : ∀ key g g', (s.gates (key, g)).busy → (s.gates (key, g')).busy → g = g'
  made : ∀ key g, (s.gates (key, g)).busy → g < s.made key
  inflight : ∀ key g, s.inflight key = some g → g < s.made key
  fetches : ∀ i call, s.calls i = some call → call.isPause = false

variable (h : s.Gated)
include h

omit [DecidableEq K] [DecidableEq L] in
lemma Gated.move (hold : s.calls i = some old)
    (hcs : s'.calls = update s.calls i call) (hg : s'.gates = s.gates)
    (hm : s'.made = s.made) (hl : s'.inflight = s.inflight)
    (hi : ∀ c gate, call = some c → c.inside = some gate → old.inside = some gate)
    (he : ∀ c, call = some c → c.isPause = false) : s'.Gated where
  inside j c gate hj hc := by
    rw [hcs] at hj
    rw [hg]
    obtain ⟨rfl, hcall⟩ | ⟨-, hj⟩ := of_update_eq hj
    · exact h.inside j old gate hold (hi c gate hcall hc)
    · exact h.inside j c gate hj hc
  unique := hg ▸ h.unique
  made := hg ▸ hm ▸ h.made
  inflight := hl ▸ hm ▸ h.inflight
  fetches j c hj := by
    rw [hcs, update_apply] at hj
    split_ifs at hj with hji
    · exact he c hj
    · exact h.fetches j c hj

omit [DecidableEq K] [DecidableEq L] in
lemma Gated.stay {pc pc' : FlightPc} (hcall : s.calls i = some (.fetch key pc))
    (hcs : s'.calls = update s.calls i (some (.fetch key pc')))
    (hg : s'.gates = s.gates) (hm : s'.made = s.made) (hl : s'.inflight = s.inflight)
    (hi : FlightCall.inside (.fetch key pc') = FlightCall.inside (.fetch key pc)) : s'.Gated := by
  refine h.move hcall hcs hg hm hl ?_ (by rintro c ⟨⟩; rfl)
  rintro c gate ⟨⟩ hga
  exact hi.symm.trans hga

/-- A step of a task at one gate that it does not come to anew. -/
structure AtGate (s s' : FlightRun K L ι) (i : ι) (gate : K × Nat) (lock : AsyncLock ι)
    (call : Option (FlightCall K)) : Prop where
  calls : s'.calls = update s.calls i call
  gates : s'.gates = update s.gates gate lock
  made : s'.made = s.made
  inflight : ∀ key g, s'.inflight key = some g → s.inflight key = some g
  busy : lock.busy → (s.gates gate).busy
  owner : ∀ j, j ≠ i → (s.gates gate).owner = some j → lock.owner = some j
  inside : ∀ c gate', call = some c → c.inside = some gate' →
    gate' = gate ∧ lock.owner = some i
  fetch : ∀ c, call = some c → c.isPause = false

variable {lock : AsyncLock ι}

omit [DecidableEq L] h in
lemma AtGate.busy_of {gate gate' : K × Nat}
    (h : AtGate s s' i gate lock call) (hb : (s'.gates gate').busy) : (s.gates gate').busy := by
  rw [h.gates, update_apply] at hb
  split_ifs at hb with he
  · rw [he]
    exact h.busy hb
  · exact hb

omit [DecidableEq L] in
lemma Gated.atGate {gate : K × Nat} (ht : AtGate s s' i gate lock call) : s'.Gated where
  inside j c gate' hj hc := by
    rw [ht.calls, update_apply] at hj
    rw [ht.gates, update_apply]
    split_ifs at hj with hi
    · obtain ⟨he, howner⟩ := ht.inside c gate' hj hc
      rw [if_pos he, howner, hi]
    have howner := h.inside j c gate' hj hc
    split_ifs with he
    · exact ht.owner j hi (he ▸ howner)
    · exact howner
  unique key g g' hg hg' := h.unique key g g' (ht.busy_of hg) (ht.busy_of hg')
  made key g hg := by
    rw [ht.made]
    exact h.made key g (ht.busy_of hg)
  inflight key g hg := by
    rw [ht.made]
    exact h.inflight key g (ht.inflight key g hg)
  fetches j c hj := by
    rw [ht.calls, update_apply] at hj
    split_ifs at hj with hi
    · exact ht.fetch c hj
    · exact h.fetches j c hj

omit [DecidableEq L] in
lemma Gated.leaveWith (hb : lock.busy → (s.gates (key, gate)).busy)
    (howner : ∀ j, j ≠ i → (s.gates (key, gate)).owner = some j → lock.owner = some j) :
    (s.leaveWith i key gate lock).Gated := by
  refine h.atGate (i := i) ⟨rfl, rfl, rfl, fun key' g hg => ?_, hb, howner, nofun, nofun⟩
  simp only [FlightRun.leaveWith, setCall] at hg
  split_ifs at hg
  · exact hg
  rw [update_apply] at hg
  split_ifs at hg
  exact hg

omit [DecidableEq L] in
lemma Gated.leave (howner : (s.gates (key, gate)).owner = some i) : (s.leave i key gate).Gated := by
  refine h.leaveWith busy_of_busy_release fun j hi hj => ?_
  rw [howner, Option.some.injEq] at hj
  exact absurd hj.symm hi

omit [DecidableEq L] in
lemma Gated.finish {held : Bool}
    (hold : s.calls i = some old) (hi : old.inside = some (key, gate)) :
    (s.finish i key gate held).Gated := by
  unfold FlightRun.finish
  split_ifs
  · refine h.move hold rfl rfl rfl rfl ?_ (by rintro c ⟨⟩; rfl)
    rintro c gate' ⟨⟩ ⟨⟩
    exact hi
  · exact h.leave (h.inside i old _ hold hi)

omit [DecidableEq L] in
lemma Gated.eq_of_busy_enter {g : Nat} (hidle : s.othersIdle key)
    (hb : ((s.enter i key).gates (key, g)).busy) : g = (s.inflight key).getD (s.made key) := by
  by_contra he
  have hb : (s.gates (key, g)).busy := by
    simpa [enter, goTo, setCall, update_apply, he] using hb
  have hg := List.all_eq_true.1 hidle g (List.mem_range.2 (h.made key g hb))
  have hl : s.inflight key = some g := by simpa [hb] using hg
  exact he (by rw [hl, getD_some])

omit [DecidableEq L] h in
lemma gates_enter_of_ne {key' : K} {g : Nat} (he : key' ≠ key) :
    (s.enter i key).gates (key', g) = s.gates (key', g) := by
  simp [enter, goTo, setCall, he]

omit [DecidableEq L] in
lemma Gated.made_enter (key' : K) : s.made key' ≤ (s.enter i key).made key' ∧
      (s.inflight key).getD (s.made key) < (s.enter i key).made key := by
  simp only [enter, goTo, setCall]
  cases hl : s.inflight key with
  | none =>
    simp only [isSome_none, Bool.false_eq_true, if_false, update_apply, getD_none, if_true]
    refine ⟨?_, Nat.lt_succ_self _⟩
    split_ifs with he
    · rw [he]
      exact Nat.le_succ _
    · exact Nat.le_refl _
  | some g => exact ⟨Nat.le_refl _, h.inflight key g hl⟩

omit [DecidableEq L] in
theorem Gated.enter (hidle : s.othersIdle key) : (s.enter i key).Gated where
  inside j c gate hj hc := by
    simp only [FlightRun.enter, FlightRun.goTo, setCall, update_apply] at hj ⊢
    split_ifs at hj with hi hfree <;> try cases hj
    · cases hc
      rw [if_pos rfl, acquire_of_free hfree, hi]
    · cases hc
    have howner := h.inside j c gate hj hc
    split_ifs with he
    · -- somebody is in the gate, so the newcomer queues
      rw [owner_acquire, if_neg, ← he, howner]
      intro hfree
      rw [he, owner_eq_none_of_free hfree] at howner
      cases howner
    · exact howner
  unique key' g g' hg hg' := by
    rcases eq_or_ne key' key with rfl | hkey
    · exact (h.eq_of_busy_enter hidle hg).trans (h.eq_of_busy_enter hidle hg').symm
    rw [gates_enter_of_ne hkey] at hg hg'
    exact h.unique key' g g' hg hg'
  made key' g hg := by
    rcases eq_or_ne key' key with rfl | hkey
    · rw [h.eq_of_busy_enter hidle hg]
      exact (h.made_enter key').2
    rw [gates_enter_of_ne hkey] at hg
    exact Nat.lt_of_lt_of_le (h.made key' g hg) (h.made_enter key').1
  inflight key' g hg := by
    rcases eq_or_ne key' key with rfl | hkey
    · simp only [FlightRun.enter, FlightRun.goTo, setCall, update_self, Option.some.injEq] at hg
      rw [← hg]
      exact (h.made_enter key').2
    refine Nat.lt_of_lt_of_le (h.inflight key' g ?_) (h.made_enter key').1
    simpa [FlightRun.enter, FlightRun.goTo, setCall, update_apply, hkey] using hg
  fetches j c hj := by
    simp only [FlightRun.enter, FlightRun.goTo, setCall, update_apply] at hj
    split_ifs at hj <;> try cases hj
    · rfl
    · rfl
    · exact h.fetches j c hj

variable {buildLock : Option (K → L)}

lemma Gated.fetchStep {pc : FlightPc} (hcall : s.calls i = some (.fetch key pc))
    (hidle : pc = .loading → s.stored key = false → s.othersIdle key)
    (ht : s.fetchStep i key buildLock pc = some s') : s'.Gated := by
  cases pc with
  | loading =>
    cases ht
    split_ifs with ho
    · exact h.move hcall rfl rfl rfl rfl nofun nofun
    · exact h.enter (hidle rfl (Bool.eq_false_iff.2 ho))
  | queued =>
    simp only [FlightRun.fetchStep] at ht
    split at ht
    case h_1 lock hr =>
      cases ht
      obtain ⟨hnone, howner, hb⟩ := resume_eq_some hr
      refine h.atGate (i := i) ⟨rfl, rfl, rfl, fun _ _ => id, fun _ => hb, ?_, ?_, ?_⟩
      · intro j _ hj
        rw [hnone] at hj
        cases hj
      · rintro c gate' ⟨⟩ ⟨⟩
        exact ⟨rfl, howner⟩
      rintro c ⟨⟩
      rfl
    case h_2 =>
      split_ifs at ht
      cases ht
      exact h.leaveWith busy_of_busy_abandon fun _ _ => id
  | rechecking =>
    simp only [FlightRun.fetchStep] at ht
    split_ifs at ht <;> cases ht
    · exact h.leave (h.inside i _ _ hcall rfl)
    · exact h.stay hcall rfl rfl rfl rfl rfl
    · exact h.stay hcall rfl rfl rfl rfl rfl
  | locking =>
    rw [FlightRun.fetchStep, map_eq_some_iff] at ht
    obtain ⟨lockKey, -, rfl⟩ := ht
    split_ifs <;> exact h.stay hcall rfl rfl rfl rfl rfl
  | looking =>
    cases ht
    split_ifs
    · exact h.finish hcall rfl
    · exact h.stay hcall rfl rfl rfl rfl rfl
  | computing => cases ht
  | saving =>
    cases ht
    have hsa : Gated { s with stored := update s.stored key true } := { h with }
    exact hsa.finish hcall rfl
  | waiting =>
    cases ht
    split_ifs
    · exact h.leave (h.inside i _ _ hcall rfl)
    · exact h
  | unlocking =>
    rw [FlightRun.fetchStep, map_eq_some_iff] at ht
    obtain ⟨lockKey, -, rfl⟩ := ht
    have hu : (s.unlock i (lockKey key)).Gated := { h with }
    exact hu.leave (h.inside i _ _ hcall rfl)

omit [DecidableEq L] in
lemma Gated.cancelCall {c : FlightCall K} (hcall : s.calls i = some c) :
    (s.cancelCall i c).Gated := by
  cases c with
  | fetch _ pc =>
    cases pc with
    | loading => exact h.move hcall rfl rfl rfl rfl nofun nofun
    | queued =>
      simp only [FlightRun.cancelCall]
      split_ifs
      · exact h.leaveWith busy_of_busy_abandon fun _ _ => id
      refine h.atGate (i := i) ⟨(update_eq_self i s.calls).symm, rfl, rfl,
        fun _ _ => id, busy_of_busy_cancel, fun _ _ => id, ?_, h.fetches i⟩
      intro c gate' hc hi
      rw [hcall] at hc
      cases hc
      cases hi
    | rechecking gate | locking gate | waiting gate | unlocking gate =>
      exact h.leave (h.inside i _ _ hcall rfl)
    | looking gate held | computing gate held | saving gate held => exact h.finish hcall rfl
  | _ => cases h.fetches i _ hcall

theorem Gated.step {a : FlightAct K L ι}
    (hh : s.sheltered buildLock .gates a) (ht : s.step buildLock a = some s') : s'.Gated := by
  cases a with simp only [FlightRun.step] at ht
  | fetch =>
    split_ifs at ht with hnone
    cases ht
    refine ⟨fun j c gate hj hc => ?_, h.unique, h.made, h.inflight, fun j c hj => ?_⟩
    · obtain ⟨-, ⟨⟩⟩ | ⟨-, hj⟩ := of_update_eq hj
      · cases hc
      · exact h.inside j c gate hj hc
    obtain ⟨-, ⟨⟩⟩ | ⟨-, hj⟩ := of_update_eq hj
    · rfl
    · exact h.fetches j c hj
  | pause => cases hh
  | go i =>
    rw [bind_eq_some_iff] at ht
    obtain ⟨c, hcall, ht⟩ := ht
    cases c with
    | fetch =>
      refine h.fetchStep hcall ?_ ht
      rintro rfl ho
      simpa [sheltered, hcall, ho] using hh
    | _ => cases h.fetches i _ hcall
  | computed =>
    split at ht
    case h_1 key gate held hcall =>
      cases ht
      split_ifs
      · exact h.stay hcall rfl rfl rfl rfl rfl
      · exact h.finish hcall rfl
    case h_2 => cases ht
  | refused i =>
    split at ht
    case h_1 key gate hcall =>
      cases ht
      exact h.stay hcall rfl rfl rfl rfl rfl
    case h_2 key hcall => cases h.fetches i _ hcall
    case h_3 => cases ht
  | retry =>
    split at ht
    case h_1 key gate lockKey hcall =>
      split_ifs at ht <;> cases ht
      · exact h.stay hcall rfl rfl rfl rfl rfl
      · exact h
    case h_2 => cases ht
  | cancel =>
    rw [map_eq_some_iff] at ht
    obtain ⟨c, hcall, rfl⟩ := ht
    exact h.cancelCall hcall
  | lapse lock | drop key =>
    cases ht
    exact { h with }
  | peerTake lock | peerLet lock =>
    split_ifs at ht
    cases ht
    exact { h with }

omit h

omit [DecidableEq K] [DecidableEq L] [DecidableEq ι] in
lemma locked_start (lockKey : K → L) : (start : FlightRun K L ι).Locked lockKey := by
  intro i c key hcall
  cases hcall

omit [DecidableEq K] [DecidableEq L] [DecidableEq ι] in
lemma gated_start : (start : FlightRun K L ι).Gated where
  inside _ _ _ := nofun
  unique _ _ _ := nofun
  made _ _ := nofun
  inflight _ _ := nofun
  fetches _ _ := nofun

/-- No two tasks compute one key, and none computes a key whose derivation is paused. -/
def SingleFlight (s : FlightRun K L ι) : Prop :=
  (∀ key i j, s.Computing i key → s.Computing j key → i = j) ∧
    ∀ key i j, s.Paused i key → ¬ s.Computing j key

omit [DecidableEq K] [DecidableEq L] [DecidableEq ι] in
lemma Locked.singleFlight (h : s.Locked lockKey) : s.SingleFlight := by
  constructor
  · rintro key i j ⟨gate, held, hi⟩ ⟨gate', he', hj⟩
    have he := (h i _ key hi rfl).symm.trans (h j _ key hj rfl)
    simpa using he
  rintro key i j ⟨held, hi⟩ ⟨gate, he', hj⟩
  have he := (h i _ key hi rfl).symm.trans (h j _ key hj rfl)
  rw [Option.some.injEq, BuildHolder.task.injEq] at he
  rw [he, hj] at hi
  cases hi

omit [DecidableEq ι] [DecidableEq K] [DecidableEq L] in
lemma Gated.singleFlight (h : s.Gated) : s.SingleFlight := by
  constructor
  · rintro key i j ⟨gate, held, hi⟩ ⟨gate', he', hj⟩
    have howner := h.inside i _ _ hi rfl
    have ho' := h.inside j _ _ hj rfl
    rw [h.unique key gate gate' (busy_of_owner howner) (busy_of_owner ho'), ho'] at howner
    simpa using howner.symm
  rintro key i j ⟨held, hi⟩
  cases h.fetches i _ hi

/-- In every run of calls that may be cancelled at any await: no two tasks compute one key at a time
and none computes a key in the body of its `derivation_paused`, if there is a build lock that no
task loses while it works under it; or if nobody pauses and a call comes to derive a key only while
no gate of it that `_inflight` has dropped is held or waited for. -/
theorem single_flight_sheltered (shelter : Shelter) {as : List (FlightAct K L ι)}
    (hrun : ((derivedFlight buildLock).guard
      fun s a => s.sheltered buildLock shelter a).run start as = some s) : s.SingleFlight := by
  cases shelter with
  | buildLock =>
    cases buildLock with
    | none =>
      -- without a build lock the condition allows no step
      cases as with
      | nil =>
        cases hrun
        exact gated_start.singleFlight
      | cons a =>
        rw [run_cons, bind_eq_some_iff] at hrun
        obtain ⟨t, ht, -⟩ := hrun
        have hh := ((guard_step_eq_some_iff _).1 ht).1
        cases a <;> cases hh
    | some lockKey =>
      have hl : s.Locked lockKey := by
        refine run_guard_invariant _ (fun s a s' h hh ht => ?_)
          (locked_start lockKey) hrun
        exact h.step hh ht
      exact hl.singleFlight
  | gates =>
    have hg : s.Gated := by
      refine run_guard_invariant _ (fun s a s' h hh ht => ?_) gated_start hrun
      exact h.step hh ht
    exact hg.singleFlight

def queuedFlight : List (FlightAct Unit Unit Nat) :=
  [.fetch 0 (), .go 0, .fetch 1 (), .go 1, .fetch 2 (), .go 2, .go 0, .go 0, .cancel 1, .go 1]

/-- A body pauses the derivation under the build lock; a task comes to derive and waits. -/
def pausedFlight : List (FlightAct Unit Unit Nat) :=
  [.pause 0 (), .go 0, .fetch 1 (), .go 1, .go 1, .go 1, .retry 1]

theorem single_flight_sheltered_runs :
    (∃ s, ((derivedFlight none).guard fun s a => s.sheltered none .gates a).run start
        queuedFlight = some s ∧
      s.calls 0 = some (.fetch () (.computing 0 false)) ∧ s.SingleFlight) ∧
    ∃ s, ((derivedFlight (some id)).guard fun s a => s.sheltered (some id) .buildLock a).run start
        pausedFlight = some s ∧
      s.calls 0 = some (.paused () true) ∧ s.calls 1 = some (.fetch () (.waiting 0)) ∧
      s.SingleFlight := by
  refine ⟨exists_run_and _ (by decide +kernel) fun s hr _ => single_flight_sheltered .gates hr,
    exists_run_imp _ (p := fun s => s.calls 0 = some (.paused () true) ∧
      s.calls 1 = some (.fetch () (.waiting 0))) (by decide +kernel) fun s hr hs => ?_⟩
  exact ⟨hs.1, hs.2, single_flight_sheltered .buildLock hr⟩

/-- The first task's computation fails while the second waits; it drops the gate before the second
runs, and the third makes a gate of its own. -/
def droppedGate : List (FlightAct Unit Unit Nat) :=
  [.fetch 0 (), .go 0, .fetch 1 (), .go 1, .fetch 2 (), .go 0, .go 0, .cancel 0, .go 2, .go 1,
    .go 1, .go 1, .go 2, .go 2]

def startedFlight : List (FlightAct Unit Unit Nat) :=
  [.pause 0 (), .fetch 1 (), .go 1, .go 1, .go 1]

/-- Two tasks compute one key at a time, each in a gate of its own; and a task computes a key in
the body of its `derivation_paused`. -/
theorem two_flights_of_droppedGate : (∃ s, (derivedFlight none).run start droppedGate = some s ∧
      s.calls 1 = some (.fetch () (.computing 0 false)) ∧
      s.calls 2 = some (.fetch () (.computing 1 false))) ∧
    ∃ s, (derivedFlight none).run start startedFlight = some s ∧
      s.calls 0 = some (.paused () false) ∧ s.calls 1 = some (.fetch () (.computing 0 false)) :=
  ⟨exists_run_of_any _ (by decide +kernel), exists_run_of_any _ (by decide +kernel)⟩

end FlightRun

end ThreeTears
