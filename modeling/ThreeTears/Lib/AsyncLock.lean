import Mathlib.Tactic.Common

/-!
# Locks of a cooperative scheduler

The lock of an event loop: tasks that find it taken queue up, and a release unlocks it and wakes the
first of the queue, which takes the lock only when the loop next runs it. In between a newcomer
still queues behind it. A cancelled waiter leaves the queue when it next runs, and passes the
wake-up on.
-/

inductive Waiter
  | pending
  | woken
  | cancelled
  deriving DecidableEq

/-- The task that has the lock, and the queue. Only its first is ever woken, and only while nobody
has the lock. -/
@[ext] structure AsyncLock (ι : Type*) where
  owner : Option ι
  waiters : List (ι × Waiter)
  first : ∀ w ∈ waiters.tail, w.2 ≠ .woken
  unowned : owner.isSome → ∀ w ∈ waiters, w.2 ≠ .woken

namespace AsyncLock

variable {ι : Type*}

def fresh : AsyncLock ι := ⟨none, [], nofun, nofun⟩

def locked (lock : AsyncLock ι) : Bool := lock.owner.isSome

def free (lock : AsyncLock ι) : Bool := !lock.locked && lock.waiters.all (·.2 = .cancelled)

def busy (lock : AsyncLock ι) : Bool := lock.locked || !lock.waiters.isEmpty

def wakeFirst : List (ι × Waiter) → List (ι × Waiter)
  | (i, .pending) :: rest => (i, .woken) :: rest
  | waiters => waiters

lemma tail_wakeFirst (wai : List (ι × Waiter)) : (wakeFirst wai).tail = wai.tail := by
  unfold wakeFirst
  split <;> rfl

lemma isEmpty_wakeFirst (wai : List (ι × Waiter)) : (wakeFirst wai).isEmpty = wai.isEmpty := by
  unfold wakeFirst
  split <;> rfl

def take (lock : AsyncLock ι) (i : ι) (h : lock.free) : AsyncLock ι where
  owner := some i
  waiters := lock.waiters
  first := lock.first
  unowned _ w hw := by
    have hall := (Bool.and_eq_true_iff.1 h).2
    have hcancelled : w.2 = .cancelled := by simpa using List.all_eq_true.1 hall w hw
    simp [hcancelled]

lemma tail_append_pending (wai : List (ι × Waiter)) (i : ι) :
    ∀ w ∈ (wai ++ [(i, Waiter.pending)]).tail, w ∈ wai.tail ∨ w = (i, .pending) := by
  cases wai with
  | nil | cons v rest => simp

def enqueue (lock : AsyncLock ι) (i : ι) : AsyncLock ι where
  owner := lock.owner
  waiters := lock.waiters ++ [(i, .pending)]
  first w hw := by
    rcases tail_append_pending lock.waiters i w hw with h | rfl
    · exact lock.first w h
    · nofun
  unowned hsome w hw := by
    obtain h | h := List.mem_append.1 hw
    · exact lock.unowned hsome w h
    rw [List.mem_singleton.1 h]
    nofun

/-- `acquire`, as far as it runs at once. -/
def acquire (lock : AsyncLock ι) (i : ι) : AsyncLock ι :=
  if h : lock.free then lock.take i h else lock.enqueue i

def release (lock : AsyncLock ι) : AsyncLock ι where
  owner := none
  waiters := wakeFirst lock.waiters
  first := by
    rw [tail_wakeFirst]
    exact lock.first
  unowned := nofun

variable [DecidableEq ι]

def resume (lock : AsyncLock ι) (i : ι) : Option (AsyncLock ι) :=
  match h : lock.waiters with
  | (j, .woken) :: rest =>
    if j = i then
      some ⟨some i, rest, fun w hw => lock.first w (by
        rw [h]
        exact List.mem_of_mem_tail hw), fun _ w hw => lock.first w (by rwa [h])⟩
    else none
  | _ => none

def cancel (lock : AsyncLock ι) (i : ι) : AsyncLock ι where
  owner := lock.owner
  waiters := lock.waiters.map fun w => if w = (i, .pending) then (i, .cancelled) else w
  first w hw := by
    rw [← List.map_tail] at hw
    obtain ⟨v, hv, rfl⟩ := List.mem_map.1 hw
    split_ifs
    · nofun
    · exact lock.first v hv
  unowned hsome w hw := by
    obtain ⟨v, hv, rfl⟩ := List.mem_map.1 hw
    split_ifs
    · nofun
    · exact lock.unowned hsome v hv

omit [DecidableEq ι] in
lemma tail_eraseP_subset (p : ι × Waiter → Bool) (wai : List (ι × Waiter)) :
    (wai.eraseP p).tail ⊆ wai.tail := by
  cases wai with
  | nil => exact List.Subset.refl _
  | cons w rest =>
    rw [List.eraseP_cons]
    cases p w with
    | true => exact fun v hv => List.mem_of_mem_tail hv
    | false => exact List.eraseP_subset

/-- A task that was cancelled while it waited runs again: it leaves the queue and, with the lock
unlocked, wakes the first. -/
def abandon (lock : AsyncLock ι) (i : ι) : AsyncLock ι where
  owner := lock.owner
  waiters :=
    let rest := lock.waiters.eraseP (·.1 = i)
    if lock.locked then rest else wakeFirst rest
  first w hw := by
    refine lock.first w (tail_eraseP_subset (·.1 = i) _ ?_)
    dsimp only at hw
    split_ifs at hw
    · exact hw
    · rwa [tail_wakeFirst] at hw
  unowned hsome w hw := by
    have hlocked : lock.locked := hsome
    rw [if_pos hlocked] at hw
    exact lock.unowned hsome w (List.mem_of_mem_eraseP hw)

/-! ### Who has the lock -/

variable {lock lock' : AsyncLock ι} {i : ι}

omit [DecidableEq ι] in
lemma acquire_of_free (h : lock.free) : (lock.acquire i).owner = some i := by
  rw [acquire, dif_pos h]
  rfl

omit [DecidableEq ι] in
lemma owner_eq_none_of_free (h : lock.free) : lock.owner = none := by
  have hl := (Bool.and_eq_true_iff.1 h).1
  simpa [locked] using hl

omit [DecidableEq ι] in
lemma owner_acquire (lock : AsyncLock ι) (i : ι) :
    (lock.acquire i).owner = if lock.free then some i else lock.owner := by
  unfold acquire
  split_ifs <;> rfl

lemma resume_eq_some (h : lock.resume i = some lock') :
    lock.owner = none ∧ lock'.owner = some i ∧ lock.busy := by
  unfold resume at h
  split at h
  case h_1 j rest hw =>
    split_ifs at h with hi
    cases h
    refine ⟨?_, rfl, by simp [busy, hw]⟩
    by_contra howner
    refine lock.unowned (Option.isSome_iff_ne_none.2 howner) (j, .woken) ?_ rfl
    rw [hw]
    exact List.mem_cons_self
  case h_2 => cases h

omit [DecidableEq ι] in
lemma busy_of_owner (h : lock.owner = some i) : lock.busy := by simp [busy, locked, h]

omit [DecidableEq ι] in
lemma busy_of_busy_release (h : lock.release.busy) : lock.busy := by
  simp only [busy, locked, release, Option.isSome_none, Bool.false_or, isEmpty_wakeFirst] at h
  simp [busy, h]

lemma busy_of_busy_cancel (h : (lock.cancel i).busy) : lock.busy := by
  simpa [busy, locked, cancel] using h

lemma busy_of_busy_abandon (h : (lock.abandon i).busy) : lock.busy := by
  obtain hl | hw := Bool.or_eq_true_iff.1 h
  · exact Bool.or_eq_true_iff.2 (.inl hl)
  refine Bool.or_eq_true_iff.2 (.inr ?_)
  cases hi : lock.waiters with
  | nil => simp [abandon, hi, wakeFirst] at hw
  | cons w rest => rfl

end AsyncLock
