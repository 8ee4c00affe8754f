import ThreeTears.Lib.Families
import ThreeTears.Lib.StepSystem

/-!
# The room subscriptions of a pod

A pod subscribes to a room when its reference count leaves zero and unsubscribes when it is back.
Each connection keeps the rooms it is in. The end of a connection cancels the frame it is in, and
then leaves what rooms the connection still has.
-/

namespace ThreeTears

open Function List StepSystem

/-- What `RoomFanout` has of a room, and the subscriptions to it that the server has. -/
structure RoomRefs where
  refCount : Nat
  subscription : Bool
  live : Nat
  deriving DecidableEq

/-- The rooms that a connection joined, and those that an eviction or the disconnect took from it
and has still to leave. -/
structure RoomConnection (ρ : Type*) where
  joinedRooms : List ρ
  leaving : List ρ

/-- A connection's lock covers each of its calls, and the fanout's lock each `join_room` and
`leave_room`. -/
structure PodRooms (κ ρ : Type*) where
  rooms : ρ → RoomRefs
  connections : κ → RoomConnection ρ

inductive RoomAct (κ ρ : Type*)
  | join (connection : κ) (room : ρ) (subscribed : Bool)
  | leave (connection : κ) (room : ρ)
  /-- the frame is cancelled, or fails, as it waits for the unsubscribe, which may have been sent -/
  | cutLeave (connection : κ) (room : ρ) (unsubscribed : Bool)
  | evict (connection : κ) (room : ρ)
  | disconnect (connection : κ)
  | leaveNext (connection : κ) (room : ρ)

variable {κ ρ : Type*} [DecidableEq κ] [DecidableEq ρ]

namespace RoomRefs

def joinRoom (r : RoomRefs) (subscribed : Bool) : RoomRefs :=
  if r.refCount = 0 then
    if subscribed then ⟨1, true, r.live + 1⟩ else { r with refCount := 1 }
  else { r with refCount := r.refCount + 1 }

def leaveRoom (r : RoomRefs) : RoomRefs :=
  if 1 < r.refCount then { r with refCount := r.refCount - 1 }
  else ⟨0, false, if r.subscription then r.live - 1 else r.live⟩

/-- `leave_room` up to the unsubscribe, which only the last reference waits for. -/
def cutLeaveRoom (r : RoomRefs) (unsubscribed : Bool) : Option RoomRefs :=
  if 1 < r.refCount ∨ r.subscription = false then none
  else some ⟨0, false, if unsubscribed then r.live - 1 else r.live⟩

/-- The pod is subscribed once exactly while the count is not zero. -/
def Sound (r : RoomRefs) : Prop :=
  r.subscription = decide (0 < r.refCount) ∧ r.live = r.subscription.toNat

lemma Sound.joinRoom {r : RoomRefs} (h : r.Sound) :
    (r.joinRoom true).Sound ∧ (r.joinRoom true).refCount = r.refCount + 1 := by
  unfold RoomRefs.joinRoom
  by_cases hr : r.refCount = 0
  · simp [Sound, h.1, h.2, hr]
  · simp [Sound, h.1, h.2, hr, Nat.pos_of_ne_zero hr]

lemma Sound.leaveRoom {r : RoomRefs} (h : r.Sound) :
    r.leaveRoom.Sound ∧ r.leaveRoom.refCount = r.refCount - 1 := by
  unfold RoomRefs.leaveRoom
  by_cases hr : 1 < r.refCount
  · simp [Sound, h.1, h.2, hr, Nat.zero_lt_of_lt hr]
  · cases hu : r.subscription <;> simp [Sound, h.2, hr, hu] <;> omega

end RoomRefs

namespace PodRooms

variable {s s' : PodRooms κ ρ} {a : RoomAct κ ρ} {c : κ} {r : ρ}

def step (s : PodRooms κ ρ) : RoomAct κ ρ → Option (PodRooms κ ρ)
  | .join c r subscribed =>
    let m := s.connections c
    if m.leaving = [] then
      if r ∈ m.joinedRooms then some s
      else
        let rooms := update s.rooms r ((s.rooms r).joinRoom subscribed)
        if subscribed ∨ (s.rooms r).refCount ≠ 0 then
          some ⟨rooms, update s.connections c { m with joinedRooms := r :: m.joinedRooms }⟩
        else some { s with rooms }
    else none
  | .leave c r =>
    let m := s.connections c
    if m.leaving = [] then
      some ⟨update s.rooms r (s.rooms r).leaveRoom,
        update s.connections c { m with joinedRooms := m.joinedRooms.erase r }⟩
    else none
  | .cutLeave c r unsubscribed =>
    -- the room stays among the connection's, which its cleanup will leave
    if (s.connections c).leaving = [] then
      ((s.rooms r).cutLeaveRoom unsubscribed).map fun refs =>
        { s with rooms := update s.rooms r refs }
    else none
  | .evict c r =>
    let m := s.connections c
    if m.leaving = [] ∧ r ∈ m.joinedRooms then
      some { s with connections := update s.connections c ⟨m.joinedRooms.erase r, [r]⟩ }
    else none
  | .disconnect c =>
    let m := s.connections c
    if m.leaving = [] then
      some { s with connections := update s.connections c ⟨[], m.joinedRooms⟩ }
    else none
  | .leaveNext c r =>
    let m := s.connections c
    if r ∈ m.leaving then
      some ⟨update s.rooms r (s.rooms r).leaveRoom,
        update s.connections c { m with leaving := m.leaving.erase r }⟩
    else none

def system : StepSystem (PodRooms κ ρ) (RoomAct κ ρ) := ⟨step⟩

def start : PodRooms κ ρ := ⟨fun _ => ⟨0, false, 0⟩, fun _ => ⟨[], []⟩⟩

/-- A leave frame names a room that its connection is in, no subscribe fails, and no leave frame
ends as it waits for the unsubscribe. -/
def Own (s : PodRooms κ ρ) : RoomAct κ ρ → Prop
  | .join _ _ subscribed => subscribed
  | .cutLeave _ _ _ => False
  | .leave c r => r ∈ (s.connections c).joinedRooms
  | _ => True

instance : Decidable (s.Own a) := by
  cases a <;> unfold Own <;> infer_instance

def held (m : RoomConnection ρ) : List ρ := m.joinedRooms ++ m.leaving

/-- The count of a room is the number of the connections that hold it. -/
structure Counted (s : PodRooms κ ρ) : Prop where
  sound : ∀ r, (s.rooms r).Sound
  count : ∀ r, {c | r ∈ held (s.connections c)}.encard = (s.rooms r).refCount
  nodup : ∀ c, (held (s.connections c)).Nodup

variable {m : RoomConnection ρ} (h : s.Counted)
include h

omit [DecidableEq ρ] in
lemma Counted.keep (hm : held m ~ held (s.connections c)) :
    Counted { s with connections := update s.connections c m } where
  sound := h.sound
  count r := (encard_update_of_iff (Q := (r ∈ held ·)) hm.mem_iff).trans (h.count r)
  nodup := forall_update (I := fun _ m => (held m).Nodup) h.nodup (hm.nodup_iff.2 (h.nodup c))

lemma Counted.gain (hr : r ∉ held (s.connections c)) (hm : held m ~ r :: held (s.connections c)) :
    Counted ⟨update s.rooms r ((s.rooms r).joinRoom true), update s.connections c m⟩ where
  sound := forall_update (I := fun _ => RoomRefs.Sound) h.sound (h.sound r).joinRoom.1
  count r' := by
    rcases eq_or_ne r' r with rfl | he
    · simp only [update_self, (h.sound _).joinRoom.2, Nat.cast_add, ← h.count]
      exact encard_update_of_gain (Q := (r' ∈ held ·)) hr (hm.mem_iff.2 mem_cons_self)
    simp only [update_of_ne he, ← h.count]
    exact encard_update_of_iff (Q := (r' ∈ held ·)) (by simp [hm.mem_iff, he])
  nodup := forall_update (I := fun _ m => (held m).Nodup) h.nodup
    (hm.nodup_iff.2 (nodup_cons.2 ⟨hr, h.nodup c⟩))

lemma Counted.loss (hm : r :: held m ~ held (s.connections c)) :
    Counted ⟨update s.rooms r (s.rooms r).leaveRoom, update s.connections c m⟩ where
  sound := forall_update (I := fun _ => RoomRefs.Sound) h.sound (h.sound r).leaveRoom.1
  count r' := by
    rcases eq_or_ne r' r with rfl | he
    · simp only [update_self, (h.sound _).leaveRoom.2]
      refine encard_eq_sub_one
        ((encard_update_of_loss (Q := (r' ∈ held ·)) ?_ ?_).trans (h.count r'))
      · exact hm.mem_iff.1 mem_cons_self
      · exact (nodup_cons.1 (hm.nodup_iff.2 (h.nodup c))).1
    simp only [update_of_ne he, ← h.count]
    exact encard_update_of_iff (Q := (r' ∈ held ·)) (by simp [← hm.mem_iff, he])
  nodup := forall_update (I := fun _ m => (held m).Nodup) h.nodup
    (nodup_cons.1 (hm.nodup_iff.2 (h.nodup c))).2

lemma Counted.step (hown : s.Own a) (ht : s.step a = some s') : s'.Counted := by
  cases a with simp only [PodRooms.step] at ht
  | join c r subscribed =>
    obtain rfl : subscribed = true := hown
    simp only [true_or, if_true] at ht
    split_ifs at ht with hl hr <;> cases ht
    · exact h
    · exact h.gain (by simp [held, hl, hr]) (by simp [held])
  | leave c r =>
    split_ifs at ht with hl
    cases ht
    exact h.loss (by simpa [held, hl] using (perm_cons_erase hown).symm)
  | cutLeave => exact hown.elim
  | evict c r =>
    split_ifs at ht with hr
    cases ht
    exact h.keep (by
      simpa [held, hr.1] using (perm_append_singleton r _).trans (perm_cons_erase hr.2).symm)
  | disconnect c =>
    split_ifs at ht with hl
    cases ht
    exact h.keep (by simp [held, hl])
  | leaveNext c r =>
    split_ifs at ht with hr
    cases ht
    exact h.loss (perm_middle.symm.trans (.append_left _ (perm_cons_erase hr).symm))

omit h

end PodRooms

end ThreeTears
