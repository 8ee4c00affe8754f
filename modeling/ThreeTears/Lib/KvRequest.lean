import ThreeTears.Lib.KvKey

/-!
# Requests to a key

What a client asks of one key of a bucket, and what the bucket answers. A create may be refused
although the key has no entry: it swaps against the revision of a deletion marker, which may be gone
by then.
-/

inductive KvRequest (V : Type*)
  | get
  | create (value : V)
  | update (value : V) (revision : Nat)
  | delete (revision : Nat)
  deriving DecidableEq

inductive KvAnswer (V : Type*)
  | entry (entry : Option (V × Nat))
  | written (revision : Option Nat)
  | deleted (done : Bool)

namespace KvRequest

variable {V : Type*}

def writes : KvRequest V → Option V
  | .create value | .update value _ => some value
  | _ => none

def expects : KvRequest V → Option Nat
  | .update _ revision | .delete revision => some revision
  | _ => none

def isWrite : KvRequest V → Bool
  | .get => false
  | _ => true

end KvRequest

namespace KvKey

variable {V : Type*} {kv kv' : KvKey V} {r : Nat}

def written (kv : KvKey V) : Option (KvKey V) → KvKey V × KvAnswer V
  | some kv' => (kv', .written (some kv'.revision))
  | none => (kv, .written none)

/-- The bucket takes one request; `refuse` is a create that loses to a marker. -/
def serve (kv : KvKey V) (refuse : Bool) : KvRequest V → KvKey V × KvAnswer V
  | .get => (kv, .entry kv.getEntry)
  | .create value => kv.written (if refuse then none else kv.create value)
  | .update value revision => kv.written (kv.update value revision)
  | .delete revision =>
    match kv.deleteAt revision with
    | some kv' => (kv', .deleted true)
    | none => (kv, .deleted false)

inductive Serves (kv : KvKey V) : KvRequest V → KvKey V → KvAnswer V → Prop
  | get : Serves kv .get kv (.entry kv.getEntry)
  | create (value : V) (h : kv.value = none) :
    Serves kv (.create value) (kv.push (some value)) (.written (some (kv.sequence + 1)))
  | update (value : V) (revision : Nat) (h : kv.revision = revision) :
    Serves kv (.update value revision) (kv.push (some value)) (.written (some (kv.sequence + 1)))
  | delete (revision : Nat) (h : revision = 0 ∨ kv.revision = revision) :
    Serves kv (.delete revision) (kv.push none) (.deleted true)
  | uncreated (value : V) : Serves kv (.create value) kv (.written none)
  | unwritten (value : V) (revision : Nat) (h : kv.revision ≠ revision) :
    Serves kv (.update value revision) kv (.written none)
  | undeleted (revision : Nat) : Serves kv (.delete revision) kv (.deleted false)

lemma serves_serve (kv : KvKey V) (refuse : Bool) (req : KvRequest V) :
    Serves kv req (kv.serve refuse req).1 (kv.serve refuse req).2 := by
  cases req with try simp only [serve]
  | get => exact .get
  | create va =>
    cases refuse with
    | true => exact .uncreated va
    | false =>
      simp only [Bool.false_eq_true, if_false]
      cases hc : kv.create va with
      | none => exact .uncreated va
      | some kv' =>
        obtain ⟨hnone, rfl⟩ := create_eq_some_iff.1 hc
        exact .create va hnone
  | update va rev =>
    cases hu : kv.update va rev with
    | none =>
      refine .unwritten va rev fun hrev => ?_
      simp [update, hrev] at hu
    | some kv' =>
      obtain ⟨hrev, rfl⟩ := update_eq_some_iff.1 hu
      exact .update va rev hrev
  | delete rev =>
    cases hd : kv.deleteAt rev with
    | none => exact .undeleted rev
    | some kv' =>
      obtain ⟨hrev, rfl⟩ := deleteAt_eq_some_iff.1 hd
      exact .delete rev hrev

lemma Serves.revision_le {req : KvRequest V} {ans : KvAnswer V}
    (he : kv.Serves req kv' ans) : kv.revision ≤ kv'.revision := by
  cases he with
  | create | update | delete => exact Nat.le_succ_of_le kv.revision_le
  | _ => exact Nat.le_refl _

/-! ### What is known of a revision -/

/-- Revision `r` was given out, and the entry is as `P` says while it is at `r`. -/
structure KnownAt (kv : KvKey V) (r : Nat) (P : V → Prop) : Prop where
  le : r ≤ kv.sequence
  holds : kv.revision = r → ∀ v, kv.value = some v → P v

namespace KnownAt

variable {P Q : V → Prop} (h : kv.KnownAt r P)
include h

lemma imp (hPQ : ∀ v, P v → Q v) : kv.KnownAt r Q :=
  ⟨h.le, fun hrev v hv => hPQ v (h.holds hrev v hv)⟩

lemma push (va : Option V) : (kv.push va).KnownAt r P :=
  ⟨Nat.le_succ_of_le h.le, fun hrev => absurd hrev (push_revision_ne h.le)⟩

omit h in
lemma of_push {v : V} (hv : P v) : (kv.push (some v)).KnownAt (kv.sequence + 1) P := by
  refine ⟨Nat.le_refl _, fun _ w hw => ?_⟩
  cases hw
  exact hv

omit h in
lemma of_getEntry {v : V} (h : kv.getEntry = some (v, r)) : kv.KnownAt r (· = v) := by
  obtain ⟨w, hw, he⟩ := Option.map_eq_some_iff.1 h
  cases he
  refine ⟨kv.revision_le, fun _ w hw' => ?_⟩
  rw [hw] at hw'
  exact (Option.some.inj hw').symm

lemma stands (hk : kv.Stands kv') : kv'.KnownAt r P := by
  refine ⟨Nat.le_trans h.le hk.1, fun hrev v hv => ?_⟩
  have hle : ∀ r' ∈ some r, r' ≤ kv.sequence := by
    rintro _ ⟨⟩
    exact h.le
  obtain ⟨hr, hva⟩ := hk.2 (some r) hle hrev
  exact h.holds hr v (hva ▸ hv)

lemma serves {req : KvRequest V} {ans : KvAnswer V}
    (he : Serves kv req kv' ans) : kv'.KnownAt r P := by
  cases he with
  | create | update | delete => exact h.push _
  | _ => exact h

end KnownAt

/-- Revision `r` was given out, and the entry is `v` while it is at `r`. -/
structure HeldAt (kv : KvKey V) (r : Nat) (v : V) : Prop where
  le : r ≤ kv.sequence
  holds : kv.revision = r → kv.value = some v

namespace HeldAt

variable {v : V}

lemma of_getEntry (h : kv.getEntry = some (v, r)) : kv.HeldAt r v := by
  obtain ⟨w, hw, he⟩ := Option.map_eq_some_iff.1 h
  cases he
  exact ⟨kv.revision_le, fun _ => hw⟩

lemma knownAt (h : kv.HeldAt r v) {P : V → Prop} (hv : P v) : kv.KnownAt r P := by
  refine ⟨h.le, fun hrev w hw => ?_⟩
  rw [h.holds hrev] at hw
  cases hw
  exact hv

lemma stands (h : kv.HeldAt r v) (hk : kv.Stands kv') : kv'.HeldAt r v := by
  refine ⟨Nat.le_trans h.le hk.1, fun hrev => ?_⟩
  have hle : ∀ r' ∈ some r, r' ≤ kv.sequence := by
    rintro _ ⟨⟩
    exact h.le
  obtain ⟨hr, hva⟩ := hk.2 (some r) hle hrev
  rw [hva]
  exact h.holds hr

end HeldAt

end KvKey
