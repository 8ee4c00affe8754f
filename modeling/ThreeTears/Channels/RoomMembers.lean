import Mathlib.Data.Finset.Basic
import ThreeTears.Lib.StepSystem

/-!
# The members of a room

A room's index lists its connections, and one presence row for each connection has its identity.
-/

namespace ThreeTears

open Function StepSystem

structure PresenceRow (ρ δ : Type*) where
  room : ρ
  member : δ
  heartbeat : Nat

/-- The two collections, and as whom each connection is in a room that it joined. -/
structure RoomState (κ ρ δ : Type*) where
  connections : κ → Option (PresenceRow ρ δ)
  rooms : ρ → Finset κ
  joined : κ → ρ → Option δ

/-- A sweep judges the connections that it tracks one after the other. -/
inductive PresenceAct (κ ρ δ : Type*)
  | join (c : κ) (r : ρ) (member : δ) (now : Nat)
  | leave (c : κ) (r : ρ)
  | heartbeat (c : κ) (now : Nat)
  | judge (c : κ) (now : Nat)

namespace RoomState

variable {κ ρ δ : Type*} [DecidableEq κ] [DecidableEq ρ] {timeout : Nat} {s s' : RoomState κ ρ δ}
  {a : PresenceAct κ ρ δ} {as : List (PresenceAct κ ρ δ)} {c : κ} {r r' : ρ}

def leave (s : RoomState κ ρ δ) (c : κ) (r : ρ) (joined : ρ → Option δ) : RoomState κ ρ δ :=
  ⟨update s.connections c none, update s.rooms r ((s.rooms r).erase c), update s.joined c joined⟩

def step (timeout : Nat) (s : RoomState κ ρ δ) : PresenceAct κ ρ δ → Option (RoomState κ ρ δ)
  | .join c r member now =>
    some ⟨update s.connections c (some ⟨r, member, now⟩), update s.rooms r (insert c (s.rooms r)),
      update s.joined c (update (s.joined c) r (some member))⟩
  | .leave c r => some (s.leave c r (update (s.joined c) r none))
  | .heartbeat c now => some { s with
      connections := update s.connections c ((s.connections c).map ({ · with heartbeat := now })) }
  | .judge c now => match s.connections c with
    | some row =>
      some (if row.heartbeat + timeout < now then s.leave c row.room fun _ => none else s)
    | none => some s

def system (timeout : Nat) : StepSystem (RoomState κ ρ δ) (PresenceAct κ ρ δ) := ⟨step timeout⟩

def start : RoomState κ ρ δ := ⟨fun _ => none, fun _ => ∅, fun _ _ => none⟩

/-- The answer of `members` for one connection. -/
def members (s : RoomState κ ρ δ) (r : ρ) (c : κ) : Option δ :=
  if c ∈ s.rooms r then (s.connections c).map (·.member) else none

/-- A connection that joins or leaves a room has no presence row of another one. -/
def InOneRoom (s : RoomState κ ρ δ) : PresenceAct κ ρ δ → Prop
  | .join c r _ _ | .leave c r => (s.connections c).all (·.room = r)
  | _ => True

instance : Decidable (s.InOneRoom a) := by
  unfold InOneRoom
  split <;> infer_instance

/-- The row of a connection is of the one room that lists it. -/
def Fits (s : RoomState κ ρ δ) (c : κ) (r : ρ) : Option (PresenceRow ρ δ) → Prop
  | some row => s.joined c r = (if row.room = r then some row.member else none) ∧
    (c ∈ s.rooms r ↔ row.room = r)
  | none => s.joined c r = none ∧ c ∉ s.rooms r

def Inv (s : RoomState κ ρ δ) : Prop := ∀ c r, s.Fits c r (s.connections c)

omit [DecidableEq κ] in
lemma Inv.other (h : s.Inv) (hrow : (s.connections c).all (·.room = r)) (hr : r' ≠ r) :
    s.joined c r' = none ∧ c ∉ s.rooms r' := by
  have hc := h c r'
  cases hpc : s.connections c with rw [hpc] at hc hrow
  | none => exact hc
  | some row =>
    have ho : row.room = r := by simpa using hrow
    simpa [Fits, ho, hr.symm] using hc

lemma Inv.leave {joined : ρ → Option δ} (h : s.Inv) (hrow : (s.connections c).all (·.room = r))
    (ho : ∀ r, joined r = none) : (s.leave c r joined).Inv := by
  intro d r'
  have hd := h d r'
  rcases eq_or_ne d c with rfl | hc <;> rcases eq_or_ne r' r with rfl | hr
  · simp [RoomState.leave, Fits, ho]
  · simp [RoomState.leave, Fits, ho, hr, h.other hrow hr]
  · simpa [RoomState.leave, Fits, hc] using hd
  · simpa [RoomState.leave, Fits, hc, hr] using hd

lemma Inv.step (h : s.Inv) (ho : s.InOneRoom a) (ht : step timeout s a = some s') : s'.Inv := by
  cases a with simp only [RoomState.step] at ht
  | join c r me now =>
    cases ht
    intro d r'
    have hd := h d r'
    rcases eq_or_ne d c with rfl | hc <;> rcases eq_or_ne r' r with rfl | hr
    · simp [Fits]
    · simp [Fits, hr, hr.symm, h.other ho hr]
    · simpa [Fits, hc] using hd
    · simpa [Fits, hc, hr] using hd
  | leave c r =>
    cases ht
    refine h.leave ho fun r' => ?_
    rcases eq_or_ne r' r with rfl | hr
    · simp
    · simp [hr, h.other ho hr]
  | heartbeat c now =>
    cases ht
    intro d r
    have hd := h d r
    rcases eq_or_ne d c with rfl | hc
    · cases hpc : s.connections d <;> simpa [Fits, hpc] using hd
    · simpa [Fits, hc] using hd
  | judge c now =>
    split at ht <;> cases ht
    · next row hrow =>
      split_ifs
      · exact h.leave (by simp [hrow]) fun _ => rfl
      · exact h
    · exact h

/-- For connections in one room at a time, `members` has those that are in the room, each as it
joined, and the indexes list no others. -/
theorem members_exact (hrun : ((system timeout).guard InOneRoom).run start as = some s) (c : κ)
    (r : ρ) : s.members r c = s.joined c r ∧ (c ∈ s.rooms r ↔ (s.joined c r).isSome) := by
  have hsa : (start : RoomState κ ρ δ).Inv := fun _ _ => by simp [start, Fits]
  have h := run_guard_invariant _ (fun _ _ _ h ho ht => h.step ho ht) hsa hrun c r
  unfold members
  cases hrow : s.connections c with rw [hrow] at h
  | none => simp [h.1, h.2]
  | some row => by_cases hr : row.room = r <;> simp [h.1, h.2, hr]

theorem members_exact_of_move : ∃ s, ((system 9).guard InOneRoom).run start
    [.join true 1 5 0, .join false 2 6 0, .leave true 1, .join true 2 5 1] = some s ∧
    s.rooms 2 = {false, true} ∧ s.members 2 true = s.joined true 2 := by
  exact exists_run_and _ (by decide) fun s hr _ => (members_exact hr true 2).1

/-- A connection joins rooms 1 and 2 and leaves room 1. -/
theorem member_of_second_room_lost : ∃ s, (system 9).run start
    [.join true 1 5 0, .join true 2 5 0, .leave true 1] = some s ∧
    s.joined true 2 = some 5 ∧ s.members 2 true = none :=
  ⟨_, rfl, rfl, rfl⟩

end RoomState

end ThreeTears
