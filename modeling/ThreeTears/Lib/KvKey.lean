import Mathlib.Tactic.Common

/-!
# One key of a revision-checked key-value bucket

A bucket is a stream that numbers every message it takes, whichever key it is for. A key is known by
its latest message alone: a value or a deletion marker, and the number (*revision*) the stream gave
it, `0` when the key has none. A write that names a revision is taken only when that is still the
key's latest.
-/

/-- The latest message of one key, and the last number the bucket's stream gave out. -/
structure KvKey (V : Type*) where
  /-- The latest message's value; `none` when it is a deletion marker or there is no message. -/
  value : Option V
  /-- The latest message's revision; `0` when there is no message. -/
  revision : Nat
  /-- The last revision given out by the stream, to this key or another. -/
  sequence : Nat
  revision_le : revision ≤ sequence
  revision_pos : value.isSome → 0 < revision

namespace KvKey

variable {V : Type*}

def empty : KvKey V where
  value := none
  revision := 0
  sequence := 0
  revision_le := Nat.le_refl 0
  revision_pos := by simp

def push (kv : KvKey V) (value : Option V) : KvKey V where
  value := value
  revision := kv.sequence + 1
  sequence := kv.sequence + 1
  revision_le := Nat.le_refl _
  revision_pos _ := Nat.succ_pos _

def foreign (kv : KvKey V) : KvKey V :=
  { kv with
    sequence := kv.sequence + 1
    revision_le := Nat.le_succ_of_le kv.revision_le }

def getEntry (kv : KvKey V) : Option (V × Nat) := kv.value.map fun v => (v, kv.revision)

def put (kv : KvKey V) (v : V) : KvKey V := kv.push (some v)

def create (kv : KvKey V) (v : V) : Option (KvKey V) :=
  if kv.value.isSome then none else some (kv.push (some v))

/-- Write when `revision` is still the key's latest. -/
def update (kv : KvKey V) (v : V) (revision : Nat) : Option (KvKey V) :=
  if kv.revision = revision then some (kv.push (some v)) else none

def delete (kv : KvKey V) : KvKey V := kv.push none

/-- Delete when `revision` is still the key's latest; revision `0` is not a condition. -/
def deleteAt (kv : KvKey V) (revision : Nat) : Option (KvKey V) :=
  if revision = 0 ∨ kv.revision = revision then some kv.delete else none

/-- The write of a reader: it creates the entry when it saw none, and else updates it at the
revision it saw. -/
def swap (kv : KvKey V) (v : V) : Option Nat → Option (KvKey V)
  | none => kv.create v
  | some revision => kv.update v revision

/-- What a reader saw at this revision is still the key's latest. -/
def Fresh (kv : KvKey V) : Option Nat → Prop
  | none => kv.value = none
  | some revision => kv.revision = revision

instance (kv : KvKey V) (revision) : Decidable (kv.Fresh revision) := by
  unfold Fresh
  split <;> infer_instance

/-- The entry's time to live has run out: the key is as if it had never been written. -/
def lapse (kv : KvKey V) : KvKey V where
  value := none
  revision := 0
  sequence := kv.sequence
  revision_le := Nat.zero_le _
  revision_pos := by simp

@[simp] lemma push_value (kv : KvKey V) (v : Option V) : (kv.push v).value = v := rfl

@[simp] lemma lapse_value (kv : KvKey V) : kv.lapse.value = none := rfl

@[simp] lemma push_revision (kv : KvKey V) (v : Option V) :
    (kv.push v).revision = kv.sequence + 1 := rfl

variable {kv kv' : KvKey V}

lemma update_eq_some_iff {v : V} {r : Nat} :
    kv.update v r = some kv' ↔ kv.revision = r ∧ kv' = kv.push (some v) := by
  simp only [update]
  split_ifs with h <;> simp [h, eq_comm]

lemma create_eq_some_iff {v : V} :
    kv.create v = some kv' ↔ kv.value = none ∧ kv' = kv.push (some v) := by
  simp only [create]
  split_ifs with h
  · simp [Option.isSome_iff_ne_none.1 h]
  · simp [Option.not_isSome_iff_eq_none.1 h, eq_comm]

lemma swap_eq_some_iff {v : V} {rev : Option Nat} :
    kv.swap v rev = some kv' ↔ kv.Fresh rev ∧ kv' = kv.push (some v) := by
  cases rev with
  | none => exact create_eq_some_iff
  | some r => exact update_eq_some_iff

lemma deleteAt_eq_some_iff {r : Nat} :
    kv.deleteAt r = some kv' ↔ (r = 0 ∨ kv.revision = r) ∧ kv' = kv.push none := by
  simp only [deleteAt, delete]
  split_ifs with h
  · simp only [Option.some.injEq, h, true_and]
    exact eq_comm
  · simp [h]

lemma push_revision_ne {kv : KvKey V} {v : Option V} {r : Nat} (h : r ≤ kv.sequence) :
    (kv.push v).revision ≠ r := by
  rw [push_revision]
  omega

lemma not_fresh_push {kv : KvKey V} {v : V} {rev : Option Nat}
    (h : ∀ r ∈ rev, r ≤ kv.sequence) : ¬ (kv.push (some v)).Fresh rev := by
  cases rev with
  | none => simp [Fresh]
  | some r => exact push_revision_ne (h r rfl)

/-- What a reader saw at a revision the key had before is, if it is still the latest, the value the
key had then. -/
def Stands (kv kv' : KvKey V) : Prop :=
  kv.sequence ≤ kv'.sequence ∧ ∀ revision : Option Nat, (∀ r ∈ revision, r ≤ kv.sequence) →
    kv'.Fresh revision → kv.Fresh revision ∧ kv'.value = kv.value

lemma Stands.refl (kv : KvKey V) : kv.Stands kv := ⟨Nat.le_refl _, fun _ _ hr => ⟨hr, rfl⟩⟩

lemma Stands.foreign (kv : KvKey V) : kv.Stands kv.foreign := by
  refine ⟨Nat.le_succ _, fun rev _ hr => ⟨?_, rfl⟩⟩
  cases rev with
  | none | some r => exact hr

lemma Stands.push (kv : KvKey V) (v : V) : kv.Stands (kv.push (some v)) :=
  ⟨Nat.le_succ _, fun _ hle hr => absurd hr (not_fresh_push hle)⟩

lemma push_ne (kv : KvKey V) (v : Option V) : kv.push v ≠ kv := by
  intro h
  exact Nat.succ_ne_self kv.sequence (congrArg sequence h)

/-- The revision that no message of the key has passed: the latest one's, or the stream's last when
the key has no value. -/
def bound (kv : KvKey V) : Nat := if kv.value.isSome then kv.revision else kv.sequence

lemma bound_le (kv : KvKey V) : kv.bound ≤ kv.sequence := by
  unfold bound
  split
  · exact kv.revision_le
  · exact Nat.le_refl _

lemma bound_of_some {v : V} (h : kv.value = some v) : kv.bound = kv.revision := by simp [bound, h]

lemma bound_of_none (h : kv.value = none) : kv.bound = kv.sequence := by simp [bound, h]

lemma bound_le_foreign (kv : KvKey V) : kv.bound ≤ kv.foreign.bound := by
  cases h : kv.value with
  | none =>
    rw [bound_of_none h, kv.foreign.bound_of_none h]
    exact Nat.le_succ _
  | some v =>
    rw [bound_of_some h, kv.foreign.bound_of_some h]
    exact Nat.le_refl _

/-- The revision was read, and the key is as it was read while that is its latest. -/
structure Saw (kv : KvKey V) (revision : Option Nat) (held : Option V) : Prop where
  le : ∀ r ∈ revision, r ≤ kv.sequence
  holds : kv.Fresh revision → kv.value = held

namespace Saw

variable {kv kv' : KvKey V} {rev : Option Nat} {held : Option V}

lemma of_getEntry (kv : KvKey V) : kv.Saw (kv.getEntry.map Prod.snd) kv.value := by
  refine ⟨fun r hr => ?_, fun _ => rfl⟩
  obtain ⟨e, he, rfl⟩ := Option.map_eq_some_iff.1 hr
  obtain ⟨v, -, rfl⟩ := Option.map_eq_some_iff.1 he
  exact kv.revision_le

lemma stands (h : kv.Saw rev held) (hk : kv.Stands kv') : kv'.Saw rev held := by
  refine ⟨fun r hr => Nat.le_trans (h.le r hr) hk.1, fun hfr => ?_⟩
  obtain ⟨hfr, hva⟩ := hk.2 rev h.le hfr
  rw [hva, h.holds hfr]

end Saw

end KvKey
