import Mathlib.Order.Bounds.Basic
import ThreeTears.Lib.Dict
import ThreeTears.Lib.StepSystem

/-!
# Messages counted through the conversation write buffer

One conversation of a pod. The other conversations of a flush only put time between its steps.
`stop` cancels the timer with the flush it may be in, and returns from a last flush of its own.
-/

namespace ThreeTears

open StepSystem Dict

structure ConversationDelta (T : Type*) where
  increment : Nat
  latestAt : T

structure ConversationRow (T : Type*) where
  messageCount : Nat
  dateLastMessage : Option T

/-- A flush that has taken the conversation's delta out of the buffer, and the row it has read. -/
structure Flush (T : Type*) where
  delta : ConversationDelta T
  entity : Option (ConversationRow T)

/-- Where `stop` is: not called, past the timer's end, in its own flush, or over. -/
inductive StopPc (ι : Type*)
  | running
  | stopping
  | flushing (i : ι)
  | returned
  deriving DecidableEq

/-- `enqueued` are the instants of the calls that returned before `stop`, the last one first. -/
structure MessageCounts (T ι : Type*) where
  row : ConversationRow T
  delta : Option (ConversationDelta T)
  flushes : Dict ι (Flush T)
  stop : StopPc ι
  enqueued : List T

inductive CountAct (T ι : Type*)
  | enqueue (time : T)
  | flush (i : ι)
  | get (i : ι)
  | saveEntity (i : ι)
  /-- `timer` is the flush that is cancelled with the timer -/
  | stop (timer : Option ι)
  | stopFlush (i : ι)
  | stopReturn

namespace MessageCounts

variable {T ι : Type*} [LinearOrder T] [DecidableEq ι] {s s' : MessageCounts T ι}
  {a : CountAct T ι} {row : ConversationRow T}

def merge (time : T) : Option (ConversationDelta T) → ConversationDelta T
  | none => ⟨1, time⟩
  | some delta => ⟨delta.increment + 1, max delta.latestAt time⟩

/-- `record_message` as often as the delta says. -/
def applied (row : ConversationRow T) (delta : ConversationDelta T) : ConversationRow T :=
  ⟨row.messageCount + delta.increment, some delta.latestAt⟩

/-- A flush empties the buffer before it applies anything. -/
def takeDelta (s : MessageCounts T ι) (i : ι) : MessageCounts T ι :=
  match s.delta with
  | none => s
  | some delta => { s with delta := none, flushes := s.flushes.set i ⟨delta, none⟩ }

def step (s : MessageCounts T ι) : CountAct T ι → Option (MessageCounts T ι)
  | .enqueue time => some <| if s.stop ≠ .running then s else
      { s with delta := some (merge time s.delta), enqueued := time :: s.enqueued }
  | .flush i => if (s.flushes.get i).isNone then some (s.takeDelta i) else none
  | .get i =>
    match s.flushes.get i with
    | some ⟨delta, none⟩ => some { s with flushes := s.flushes.set i ⟨delta, some s.row⟩ }
    | _ => none
  | .saveEntity i =>
    match s.flushes.get i with
    | some ⟨delta, some row⟩ =>
      some { s with row := applied row delta, flushes := s.flushes.erase i }
    | _ => none
  | .stop timer => some <| if s.stop ≠ .running then s else
      { s with stop := .stopping, flushes := timer.elim s.flushes s.flushes.erase }
  | .stopFlush i =>
    if s.stop = .stopping ∧ (s.flushes.get i).isNone then
      some { s.takeDelta i with stop := if s.delta.isNone then .returned else .flushing i }
    else none
  | .stopReturn =>
    match s.stop with
    | .flushing i => if (s.flushes.get i).isNone then some { s with stop := .returned } else none
    | _ => none

def system : StepSystem (MessageCounts T ι) (CountAct T ι) := ⟨step⟩

def start (row : ConversationRow T) : MessageCounts T ι := ⟨row, none, .empty, .running, []⟩

/-- Flushes begin and `stop` is called while no flush is under way, and a message that finds no
delta is not older than those before it. -/
def Orderly (s : MessageCounts T ι) : CountAct T ι → Prop
  | .enqueue time => s.delta.isSome ∨ ∀ t ∈ s.enqueued, t ≤ time
  | .flush _ | .stop _ | .stopFlush _ => s.flushes.keys = []
  | _ => True

instance : Decidable (s.Orderly a) := by
  unfold Orderly
  split <;> infer_instance

def flushed (s : MessageCounts T ι) : Option (ConversationDelta T) :=
  s.flushes.entries.head?.map (·.2.delta)

def increments (delta : Option (ConversationDelta T)) : Nat := delta.elim 0 (·.increment)

def newest (s : MessageCounts T ι) : Option T :=
  ((s.delta.or s.flushed).map (·.latestAt)).or s.row.dateLastMessage

def One (s : MessageCounts T ι) : Prop :=
  s.flushes.entries = [] ∨
    ∃ i f, s.flushes.entries = [(i, f)] ∧ ∀ r, f.entity = some r → r = s.row

/-- The messages are those in the row, in the flush under way and in the delta. -/
structure Counted (row : ConversationRow T) (s : MessageCounts T ι) : Prop where
  one : s.One
  count : s.row.messageCount + increments s.flushed + increments s.delta =
    row.messageCount + s.enqueued.length
  latest : s.enqueued = [] ∧ s.delta = none ∧ s.newest = row.dateLastMessage ∨
    ∃ t, s.newest = some t ∧ IsGreatest {t | t ∈ s.enqueued} t

omit [DecidableEq ι] in
lemma Counted.enqueue (h : s.Counted row) {time : T}
    (ho : s.delta.isSome ∨ ∀ t ∈ s.enqueued, t ≤ time) :
    Counted row { s with delta := some (merge time s.delta), enqueued := time :: s.enqueued } := by
  have hc := h.count
  have hl := h.latest
  refine ⟨h.one, ?_, .inr ⟨(merge time s.delta).latestAt, rfl, ?_⟩⟩
  · cases hd : s.delta <;> simp_all [increments, merge, flushed] <;> omega
  cases hd : s.delta with simp only [hd, newest, Option.or, Option.map] at ho hl
  | none => exact ⟨.head _, by simpa [upperBounds, merge] using ho⟩
  | some d =>
    obtain ⟨_, ⟨⟩, hg⟩ := hl.resolve_left (by simp)
    have hi : {t | t ∈ time :: s.enqueued} = insert time {t | t ∈ s.enqueued} := by
      ext
      simp
    rw [hi, merge, max_comm]
    exact hg.insert time

omit [DecidableEq ι] in
lemma Counted.moved (h : s.Counted row) (ho : s'.One)
    (hc : s'.row.messageCount + increments s'.flushed + increments s'.delta =
      s.row.messageCount + increments s.flushed + increments s.delta)
    (hd : s.delta = none → s'.delta = none) (hnewest : s'.newest = s.newest)
    (he : s'.enqueued = s.enqueued) : s'.Counted row where
  one := ho
  count := by rw [hc, he, h.count]
  latest := by
    rw [hnewest, he]
    exact h.latest.imp_left fun ⟨hi, hnone, hrow⟩ => ⟨hi, hd hnone, hrow⟩

omit [LinearOrder T] in
lemma One.entries (h : s.One) {i : ι} {f : Flush T} (hg : s.flushes.get i = some f) :
    s.flushes.entries = [(i, f)] ∧ ∀ r, f.entity = some r → r = s.row := by
  have hmem := get_eq_some_iff.1 hg
  obtain hi | ⟨j, f', ho, hrow⟩ := h
  · simp [hi] at hmem
  · rw [ho, List.mem_singleton] at hmem
    cases hmem
    exact ⟨ho, hrow⟩

lemma Counted.takeDelta (h : s.Counted row) (hi : s.flushes.entries = []) (i : ι) :
    (s.takeDelta i).Counted row := by
  unfold MessageCounts.takeDelta
  split
  · exact h
  next d hd =>
    have hse : (s.flushes.set i ⟨d, none⟩).entries = [(i, ⟨d, none⟩)] := by
      simp [Dict.set, hi, assign]
    refine h.moved (.inr ⟨i, _, hse, by simp⟩) ?_ (fun _ => rfl) ?_ rfl <;>
      simp [newest, flushed, hse, hi, hd, increments]

lemma Counted.step (h : s.Counted row) (hk : s.Orderly a) (ht : s.step a = some s') :
    s'.Counted row := by
  cases a with simp only [MessageCounts.step] at ht
  | enqueue time =>
    cases ht
    split_ifs
    · exact h
    · exact h.enqueue hk
  | flush i =>
    split_ifs at ht
    cases ht
    exact h.takeDelta (List.map_eq_nil_iff.1 hk) i
  | get i =>
    split at ht <;> cases ht
    next d hg =>
      obtain ⟨ho, -⟩ := h.one.entries hg
      have hse : (s.flushes.set i ⟨d, some s.row⟩).entries = [(i, ⟨d, some s.row⟩)] := by
        simp [Dict.set, ho, assign]
      refine h.moved (.inr ⟨i, _, hse, by simp⟩) ?_ id ?_ rfl <;>
        simp [newest, flushed, hse, ho]
  | saveEntity i =>
    split at ht <;> cases ht
    next d r hg =>
      obtain ⟨ho, hrow⟩ := h.one.entries hg
      obtain rfl := hrow r rfl
      have he : (s.flushes.erase i).entries = [] := by simp [Dict.erase, Dict.filter, ho]
      refine h.moved (.inl he) ?_ id ?_ rfl
      · simp [flushed, he, ho, applied, increments]
      · cases hd : s.delta <;> simp [newest, flushed, he, ho, applied, hd]
  | stop timer =>
    cases ht
    split_ifs
    · exact h
    have hi : s.flushes.entries = [] := List.map_eq_nil_iff.1 hk
    have hsi : (timer.elim s.flushes s.flushes.erase).entries = [] := by
      cases timer <;> simp [Dict.erase, Dict.filter, hi]
    refine h.moved (.inl hsi) ?_ id ?_ rfl <;> simp [newest, flushed, hsi, hi]
  | stopFlush i =>
    obtain ⟨-, ht⟩ := Option.ite_none_right_eq_some.1 ht
    cases ht
    have hn := h.takeDelta (List.map_eq_nil_iff.1 hk) i
    exact ⟨hn.one, hn.count, hn.latest⟩
  | stopReturn =>
    split at ht
    · split_ifs at ht
      cases ht
      exact ⟨h.one, h.count, h.latest⟩
    · cases ht

/-! ### The last flush -/

/-- The flush of `stop` takes the last delta, and no other flush is under way beside it or after
it. -/
structure Drained (s : MessageCounts T ι) : Prop where
  flushing : ∀ i, s.stop = .flushing i → s.delta = none ∧
    ∀ j f, s.flushes.get j = some f → j = i
  returned : s.stop = .returned → s.delta = none ∧ s.flushes.entries = []

omit [LinearOrder T] in
lemma drained_of_running (h : s.stop = .running ∨ s.stop = .stopping) : s.Drained := by
  obtain h | h := h <;> exact ⟨fun i hi => by simp [h] at hi, fun hr => by simp [h] at hr⟩

omit [LinearOrder T] in
lemma Drained.of_get (h : s.Drained) (hst : s'.stop = s.stop)
    (hd : s.delta = none → s'.delta = none)
    (hg : ∀ j f, s'.flushes.get j = some f → ∃ f', s.flushes.get j = some f') : s'.Drained := by
  refine ⟨fun i hi => ?_, fun hr => ?_⟩
  · obtain ⟨hnone, hget⟩ := h.flushing i (hst ▸ hi)
    refine ⟨hd hnone, fun j f hj => ?_⟩
    obtain ⟨f', hj'⟩ := hg j f hj
    exact hget j f' hj'
  obtain ⟨hnone, hi⟩ := h.returned (hst ▸ hr)
  refine ⟨hd hnone, List.eq_nil_iff_forall_not_mem.2 fun x hx => ?_⟩
  obtain ⟨f', hj'⟩ := hg x.1 x.2 (get_eq_some_iff.2 hx)
  have hmem := get_eq_some_iff.1 hj'
  simp [hi] at hmem

omit [LinearOrder T] in
lemma Drained.stopFlush (hi : s.flushes.entries = []) (i : ι) :
    Drained { s.takeDelta i with stop := if s.delta.isNone then .returned else .flushing i } := by
  unfold MessageCounts.takeDelta
  cases hd : s.delta with
  | none => exact ⟨fun j hj => by simp at hj, fun _ => ⟨hd, hi⟩⟩
  | some d =>
    refine ⟨fun k hk => ⟨rfl, fun j f hj => ?_⟩, fun hr => by simp at hr⟩
    simp only [Option.isNone_some, Bool.false_eq_true, if_false, StopPc.flushing.injEq] at hk
    have hmem := get_eq_some_iff.1 hj
    simp only [Dict.set, hi, assign, List.mem_singleton] at hmem
    rw [← hk, (Prod.mk.inj hmem).1]

lemma Drained.step (h : s.Drained) (hk : s.Orderly a) (ht : s.step a = some s') :
    s'.Drained := by
  cases a with simp only [MessageCounts.step] at ht
  | enqueue time =>
    cases ht
    split_ifs with hr
    · exact h
    · exact drained_of_running (.inl (not_not.1 hr))
  | flush i =>
    split_ifs at ht
    cases ht
    unfold MessageCounts.takeDelta
    split
    · exact h
    next d hd =>
      -- a delta is only there before the flush of `stop`
      refine ⟨fun j hj => ?_, fun hr => ?_⟩
      · simp [(h.flushing j hj).1] at hd
      · simp [(h.returned hr).1] at hd
  | get i =>
    split at ht <;> cases ht
    next d hg =>
      refine h.of_get rfl id fun j f hj => ?_
      obtain rfl | hji := eq_or_ne j i
      · exact ⟨_, hg⟩
      · exact ⟨f, by rwa [Dict.get_set_of_ne hji] at hj⟩
  | saveEntity i =>
    split at ht <;> cases ht
    refine h.of_get rfl id fun j f hj => ⟨f, ?_⟩
    have hmem := get_eq_some_iff.1 hj
    exact get_eq_some_iff.2 (List.mem_of_mem_filter hmem)
  | stop timer =>
    cases ht
    split_ifs
    · exact h
    · exact drained_of_running (.inr rfl)
  | stopFlush i =>
    obtain ⟨-, ht⟩ := Option.ite_none_right_eq_some.1 ht
    cases ht
    exact .stopFlush (List.map_eq_nil_iff.1 hk) i
  | stopReturn =>
    split at ht
    · next i hi =>
      split_ifs at ht with hnone
      cases ht
      obtain ⟨hd, hget⟩ := h.flushing i hi
      refine ⟨fun j hj => by simp at hj, fun _ => ⟨hd, ?_⟩⟩
      refine List.eq_nil_iff_forall_not_mem.2 fun x hx => ?_
      have hx' := get_eq_some_iff.2 hx
      rw [hget x.1 x.2 hx'] at hx'
      simp [hx'] at hnone
    · cases ht

/-- Once `stop` has returned, the row counts every message and has the latest instant of them. -/
theorem messages_counted {as : List (CountAct T ι)}
    (hrun : (system.guard Orderly).run (start row) as = some s) (hstop : s.stop = .returned) :
    s.row.messageCount = row.messageCount + s.enqueued.length ∧
      (s.enqueued = [] ∧ s.row.dateLastMessage = row.dateLastMessage ∨
        ∃ t, s.row.dateLastMessage = some t ∧ IsGreatest {t | t ∈ s.enqueued} t) := by
  have h : s.Counted row := run_guard_invariant _ (fun _ _ _ h ho ht => h.step ho ht)
    ⟨.inl rfl, rfl, .inl ⟨rfl, rfl, rfl⟩⟩ hrun
  have hdr : s.Drained := run_guard_invariant _ (fun _ _ _ h ho ht => h.step ho ht)
    (drained_of_running (.inl rfl)) hrun
  obtain ⟨hdelta, hi⟩ := hdr.returned hstop
  have hc := h.count
  have hl := h.latest
  simp only [newest, flushed, hi, hdelta] at hc hl
  exact ⟨hc, hl.imp_left fun hnone => ⟨hnone.1, hnone.2.2⟩⟩

theorem messages_counted_flushedTwice : ∃ s : MessageCounts Nat Bool,
    (system.guard Orderly).run (start ⟨3, none⟩) [.enqueue 5, .enqueue 4, .flush true, .get true,
        .enqueue 6, .saveEntity true, .stop (some true), .enqueue 7, .stopFlush false, .get false,
        .saveEntity false, .stopReturn] = some s ∧
      (s.stop = .returned ∧ s.enqueued.length = 3) ∧ s.row.messageCount = 6 :=
  exists_run_and _ rfl fun s hrun hs => by rw [(messages_counted hrun hs.1).1, hs.2]

/-- A flush of the timer is cancelled with the delta it has taken, and `stop` returns. -/
theorem message_lost_at_stop : ∃ s : MessageCounts Nat Bool,
    system.run (start ⟨3, none⟩) [.enqueue 5, .flush true, .stop (some true), .stopFlush false] =
        some s ∧ s.stop = .returned ∧ s.enqueued = [5] ∧ s.row.messageCount = 3 :=
  exists_run_of_any _ rfl

end MessageCounts

end ThreeTears
