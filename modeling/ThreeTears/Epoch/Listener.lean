import ThreeTears.Lib.Families
import ThreeTears.Lib.StepSystem

/-!
# The consumers of an epoch listener

One listener serves all the consumers of a pod. Each of them has a subscription of its own, and
they share the epochs last seen, one for each subject that a broadcast names.
-/

namespace ThreeTears

open Function StepSystem

/-- A consumer's subscription. The broadcasts delivered to it and the calls of its `on_bump` are
listed newest first. -/
structure EpochConsumer (P : Type*) where
  path : P
  primed : Nat
  subscribed : Bool
  delivered : List (P × Nat)
  calls : List (P × Nat)
  deriving DecidableEq

/-- A subject that is not in `_last_seen` counts as seen at 0. -/
structure EpochListener (P ι : Type*) where
  lastSeen : P → Nat
  consumers : ι → Option (EpochConsumer P)

/-- `subscribe` records the primed epoch before it awaits the subscription. -/
inductive ListenerAct (P ι : Type*)
  | prime (consumer : ι) (path : P) (epoch : Nat)
  | subscribed (consumer : ι)
  | deliver (consumer : ι) (path : P) (epoch : Nat)

variable {P ι : Type*} [DecidableEq P] [DecidableEq ι]

/-- The epoch is above the one primed and above those of the subject delivered before. -/
def IsMove (primed : P → Nat) (before : List (P × Nat)) (path : P) (epoch : Nat) : Prop :=
  primed path < epoch ∧ ∀ b ∈ before, b.1 = path → b.2 < epoch

instance {primed : P → Nat} {before : List (P × Nat)} {path : P} {epoch : Nat} :
    Decidable (IsMove primed before path epoch) :=
  inferInstanceAs (Decidable (_ ∧ _))

def moves (primed : P → Nat) : List (P × Nat) → List (P × Nat)
  | [] => []
  | b :: before =>
    if IsMove primed before b.1 b.2 then b :: moves primed before else moves primed before

def EpochConsumer.primedFor (c : EpochConsumer P) (path : P) : Nat :=
  if path = c.path then c.primed else 0

/-- The subject has one consumer: no other primes it or has its broadcasts delivered. -/
def ListenerAct.OfOne (owner : P → ι) : ListenerAct P ι → Prop
  | .prime i path _ | .deliver i path _ => owner path = i
  | .subscribed _ => True

namespace EpochListener

def onBump (s : EpochListener P ι) (i : ι) (c : EpochConsumer P) (path : P) (epoch : Nat) :
    EpochListener P ι :=
  let c := { c with delivered := (path, epoch) :: c.delivered }
  if epoch ≤ s.lastSeen path then { s with consumers := update s.consumers i (some c) }
  else
    ⟨update s.lastSeen path epoch,
      update s.consumers i (some { c with calls := (path, epoch) :: c.calls })⟩

def step (covers : P → P → Bool) (s : EpochListener P ι) :
    ListenerAct P ι → Option (EpochListener P ι)
  | .prime i path epoch =>
    if s.consumers i = none then
      some ⟨update s.lastSeen path epoch, update s.consumers i (some ⟨path, epoch, false, [], []⟩)⟩
    else none
  | .subscribed i => (s.consumers i).map fun c =>
    { s with consumers := update s.consumers i (some { c with subscribed := true }) }
  | .deliver i path epoch => (s.consumers i).bind fun c =>
    if c.subscribed ∧ covers c.path path then some (s.onBump i c path epoch) else none

def system (covers : P → P → Bool) : StepSystem (EpochListener P ι) (ListenerAct P ι) :=
  ⟨step covers⟩

def start : EpochListener P ι := ⟨fun _ => 0, fun _ => none⟩

/-- What a consumer was called for, and what is last seen of the subjects that it owns. -/
def Suits (seen : P → Nat) (owns : P → Prop) : Option (EpochConsumer P) → Prop
  | none => ∀ p, owns p → seen p = 0
  | some c => c.calls = moves c.primedFor c.delivered ∧
    ∀ p, owns p → ∀ e, seen p < e ↔ IsMove c.primedFor c.delivered p e

variable {covers : P → P → Bool} {owner : P → ι} {s s' : EpochListener P ι} {a : ListenerAct P ι}
  {as : List (ListenerAct P ι)} {i : ι} {c : EpochConsumer P} {path : P} {epoch : Nat}

omit [DecidableEq ι] in
lemma Suits.congr {seen seen' : P → Nat} {owns : P → Prop} {c : Option (EpochConsumer P)}
    (h : Suits seen owns c) (hseen : ∀ p, owns p → seen' p = seen p) : Suits seen' owns c := by
  cases c with
  | none => exact fun p hp => (hseen p hp).trans (h p hp)
  | some c => exact ⟨h.1, fun p hp e => by rw [hseen p hp, h.2 p hp]⟩

def Inv (owner : P → ι) (s : EpochListener P ι) : Prop :=
  ∀ i, Suits s.lastSeen (owner · = i) (s.consumers i)

lemma Inv.own {c : Option (EpochConsumer P)} (h : Inv owner s) (hpa : owner path = i)
    (hi : Suits (update s.lastSeen path epoch) (owner · = i) c) :
    Inv owner ⟨update s.lastSeen path epoch, update s.consumers i c⟩ := by
  refine (forall_update_iff s.consumers fun j c => Suits _ (owner · = j) c).2 ⟨hi, fun j hj => ?_⟩
  refine (h j).congr fun p hp => update_of_ne ?_ _ _
  rintro rfl
  exact hj (hp.symm.trans hpa)

lemma Inv.onBump (h : Inv owner s) (hpa : owner path = i) (hc : s.consumers i = some c) :
    Inv owner (s.onBump i c path epoch) := by
  have hi := h i
  rw [hc] at hi
  have ho := hi.2 path hpa epoch
  unfold EpochListener.onBump
  split_ifs with hseen
  · have hno : ¬ IsMove c.primedFor c.delivered path epoch := mt ho.2 (not_lt.2 hseen)
    refine forall_update h ⟨?_, fun p hp e => ?_⟩
    · exact hi.1.trans (if_neg hno).symm
    rw [hi.2 p hp]
    refine ⟨fun hm => ⟨hm.1, List.forall_mem_cons.2 ⟨?_, hm.2⟩⟩, fun hm =>
      ⟨hm.1, (List.forall_mem_cons.1 hm.2).2⟩⟩
    rintro rfl
    exact hseen.trans_lt ((hi.2 _ hp e).2 hm)
  have hy := ho.1 (not_le.1 hseen)
  refine h.own hpa ⟨?_, fun p hp e => ?_⟩
  · exact (congrArg _ hi.1).trans (if_pos hy).symm
  obtain rfl | hne := eq_or_ne p path
  · rw [update_self]
    exact ⟨fun he => ⟨hy.1.trans he, List.forall_mem_cons.2
      ⟨fun _ => he, fun b hb hp => (hy.2 b hb hp).trans he⟩⟩,
      fun hm => hm.2 _ List.mem_cons_self rfl⟩
  rw [update_of_ne hne, hi.2 p hp]
  exact and_congr_right fun _ => by simp [hne.symm]

lemma Inv.step (h : Inv owner s) (ha : a.OfOne owner) (ht : step covers s a = some s') :
    Inv owner s' := by
  cases a with simp only [EpochListener.step] at ht
  | prime i path epoch =>
    split_ifs at ht with hnone
    cases ht
    have hi := h i
    rw [hnone] at hi
    refine h.own ha ⟨rfl, fun p hp e => ?_⟩
    obtain rfl | he := eq_or_ne p path
    · simp [IsMove, EpochConsumer.primedFor]
    · simp [IsMove, EpochConsumer.primedFor, he, hi p hp]
  | subscribed i =>
    obtain ⟨c, hc, rfl⟩ := Option.map_eq_some_iff.1 ht
    have hi := h i
    rw [hc] at hi
    exact forall_update h hi
  | deliver i path epoch =>
    obtain ⟨c, hc, ht⟩ := Option.bind_eq_some_iff.1 ht
    split_ifs at ht
    cases ht
    exact h.onBump ha hc

/-- Where each subject has one consumer, every consumer is called once for each broadcast that it
has to hear of, in their order, and for no other. -/
theorem calls_eq_moves (owner : P → ι) (hone : ∀ a ∈ as, a.OfOne owner)
    (hrun : (system covers).run start as = some s) (hc : s.consumers i = some c) :
    c.calls = moves c.primedFor c.delivered := by
  have hsa : Inv owner start := fun _ _ _ => rfl
  have hi := run_invariant_mem _ (fun _ a ha _ h ht => h.step (hone a ha) ht) hsa hrun i
  rw [hc] at hi
  exact hi.1

def everySubject (pattern path : Nat) : Bool :=
  pattern = 0 ∨ pattern = path

def oneEach : List (ListenerAct Nat (Fin 2)) :=
  [.prime 0 0 4, .subscribed 0, .prime 1 1 3, .subscribed 1, .deliver 0 2 1, .deliver 1 1 3,
    .deliver 1 1 5, .deliver 1 1 4]

theorem calls_oneEach : ∃ s c, (system everySubject).run start oneEach = some s ∧
    s.consumers 1 = some c ∧ c.calls = [(1, 5)] ∧ c.calls = moves c.primedFor c.delivered := by
  obtain ⟨s, c, hr, hc, hca⟩ : ∃ s c, (system everySubject).run start oneEach = some s ∧
    s.consumers 1 = some c ∧ c.calls = [(1, 5)] := ⟨_, _, rfl, rfl, rfl⟩
  exact ⟨s, c, hr, hc, hca, calls_eq_moves (fun path => if path = 1 then 1 else 0)
    (by simp [oneEach, ListenerAct.OfOne]) hr hc⟩

/-- The first broadcast of subject 1 reaches both of its consumers, and only one is called. -/
theorem second_consumer_not_called : ∃ s c, (system everySubject).run start
    [.prime (0 : Fin 2) 1 0, .subscribed 0, .prime 1 1 0, .subscribed 1, .deliver 0 1 1,
      .deliver 1 1 1] = some s ∧
    s.consumers 1 = some c ∧ c.calls = [] ∧ moves c.primedFor c.delivered = [(1, 1)] :=
  ⟨_, _, rfl, rfl, rfl, by decide⟩

end EpochListener

end ThreeTears
