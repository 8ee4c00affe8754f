import Mathlib.Tactic.Common

/-!
# The L1 fence

`_L1Fence` orders a process's L1 writes of a key against every other write and eviction of it. A
read or a write takes a ticket before its first await and may cache a row only while no write of the
key began and no eviction of it landed since, and no write was in flight at that time. `none` is the
record of a key that nothing watches.
-/

namespace ThreeTears

/-- What a process is doing to one key (`_KeyActivity`). -/
structure KeyActivity where
  /-- Writes begun and evictions landed since the key was first watched. -/
  changes : Nat := 0
  /-- Writes in flight. -/
  writers : Nat := 0
  /-- Tickets outstanding. -/
  holders : Nat := 0

/-- The claim of one read or write on the key (`_KeyTicket`). -/
structure KeyTicket where
  seen : Nat
  contended : Bool
  writing : Bool
  deriving DecidableEq

/-- The fence's entry for the key: `none` when no ticket is outstanding. -/
abbrev L1Fence := Option KeyActivity

namespace L1Fence

/-- `begin`: the record after a ticket is taken, and the ticket. -/
def beginTicket (f : L1Fence) (writing : Bool) : KeyActivity × KeyTicket :=
  let activity := f.getD {}
  let contended := decide (0 < activity.writers)
  let activity :=
    if writing then
      { activity with writers := activity.writers + 1, changes := activity.changes + 1 }
    else activity
  let activity := { activity with holders := activity.holders + 1 }
  (activity, { seen := activity.changes, contended := contended, writing := writing })

/-- `still_newest`: no write overlapped the ticket and no eviction landed since it was taken. -/
def stillNewest (f : L1Fence) (ticket : KeyTicket) : Bool :=
  match f with
  | none => false
  | some activity => !ticket.contended && activity.changes == ticket.seen

/-- `end`: the ticket is released, and the record dropped once nothing holds it. -/
def endTicket (f : L1Fence) (ticket : KeyTicket) : L1Fence :=
  f.bind fun activity =>
    let writers := if ticket.writing then activity.writers - 1 else activity.writers
    let holders := activity.holders - 1
    if holders = 0 then none else some { activity with writers := writers, holders := holders }

/-- `changed`: the key was evicted or rewritten. -/
def changed (f : L1Fence) : L1Fence :=
  f.map fun activity => { activity with changes := activity.changes + 1 }

def writers (f : L1Fence) : Nat := (f.getD {}).writers

def holders (f : L1Fence) : Nat := (f.getD {}).holders

/-- The record the ticket was taken on is still in place. -/
def Holds (f : L1Fence) (ticket : KeyTicket) : Prop :=
  ∃ activity, f = some activity ∧ ticket.seen ≤ activity.changes

variable {f : L1Fence} {t t' : KeyTicket} {w : Bool}

@[simp] lemma holders_none : holders none = 0 := rfl

@[simp] lemma writers_none : writers none = 0 := rfl

@[simp] lemma holders_changed (f : L1Fence) : holders (changed f) = holders f := by cases f <;> rfl

@[simp] lemma writers_changed (f : L1Fence) : writers (changed f) = writers f := by cases f <;> rfl

lemma holders_beginTicket (f : L1Fence) (w : Bool) :
    holders (some (beginTicket f w).1) = holders f + 1 := by
  cases w <;> rfl

lemma writers_beginTicket (f : L1Fence) (w : Bool) :
    writers (some (beginTicket f w).1) = writers f + if w then 1 else 0 := by
  cases w <;> rfl

lemma endTicket_some (a : KeyActivity) (t : KeyTicket) : endTicket (some a) t =
      if a.holders - 1 = 0 then none
      else some { a with
        writers := if t.writing then a.writers - 1 else a.writers
        holders := a.holders - 1 } := rfl

lemma holders_endTicket (f : L1Fence) (t : KeyTicket) :
    holders (endTicket f t) = holders f - 1 := by
  cases f with
  | none => rfl
  | some a =>
    rw [endTicket_some]
    by_cases h : a.holders - 1 = 0 <;> simp [h, holders]

lemma writers_endTicket (h : writers f ≤ holders f)
    (h' : t.writing = false → writers f + 1 ≤ holders f) :
    writers (endTicket f t) = writers f - if t.writing then 1 else 0 := by
  cases f with
  | none => simp [endTicket]
  | some a =>
    simp only [writers, holders, Option.getD_some] at h h'
    rw [endTicket_some]
    by_cases ha : a.holders - 1 = 0
    · rw [if_pos ha, writers_none]
      cases ht : t.writing with
      | true =>
        simp only [writers, Option.getD_some, if_true]
        omega
      | false =>
        have := h' ht
        simp only [writers, Option.getD_some]
        omega
    · cases ht : t.writing <;> simp [ha, writers]

lemma holds_beginTicket (f : L1Fence) (w : Bool) :
    Holds (some (beginTicket f w).1) (beginTicket f w).2 := ⟨_, rfl, Nat.le_refl _⟩

variable (h : Holds f t)
include h

lemma Holds.beginTicket (w : Bool) : Holds (some (L1Fence.beginTicket f w).1) t := by
  obtain ⟨a, rfl, ha⟩ := h
  refine ⟨_, rfl, ?_⟩
  cases w <;> simp [L1Fence.beginTicket] <;> omega

lemma Holds.changed : Holds (changed f) t := by
  obtain ⟨a, rfl, ha⟩ := h
  exact ⟨_, rfl, by simp; omega⟩

lemma Holds.endTicket (t' : KeyTicket) (hf : 2 ≤ holders f) : Holds (endTicket f t') t := by
  obtain ⟨a, rfl, ha⟩ := h
  simp only [holders, Option.getD_some] at hf
  rw [endTicket_some, if_neg (by omega)]
  exact ⟨_, rfl, ha⟩

lemma Holds.not_stillNewest_changed : stillNewest (L1Fence.changed f) t = false := by
  obtain ⟨a, rfl, ha⟩ := h
  have : a.changes + 1 ≠ t.seen := by omega
  simp [stillNewest, L1Fence.changed, this]

lemma Holds.not_stillNewest_beginWrite :
    stillNewest (some (L1Fence.beginTicket f true).1) t = false := by
  obtain ⟨a, rfl, ha⟩ := h
  have : a.changes + 1 ≠ t.seen := by omega
  simp [stillNewest, L1Fence.beginTicket, this]

lemma Holds.stillNewest_beginRead :
    stillNewest (some (L1Fence.beginTicket f false).1) t = stillNewest f t := by
  obtain ⟨a, rfl, ha⟩ := h
  rfl

omit h

lemma not_stillNewest_of_contended {f' : L1Fence} (h : 0 < writers f) (w : Bool) :
    stillNewest f' (beginTicket f w).2 = false := by
  have : 0 < (f.getD {}).writers := h
  cases f' <;> simp [stillNewest, beginTicket, this]

lemma stillNewest_of_endTicket (h : stillNewest (endTicket f t') t = true) :
    stillNewest f t = true := by
  cases f with
  | none => simp [endTicket, stillNewest] at h
  | some a =>
    rw [endTicket_some] at h
    by_cases ha : a.holders - 1 = 0
    · simp [ha, stillNewest] at h
    · simpa [ha, stillNewest] using h

end L1Fence

end ThreeTears
