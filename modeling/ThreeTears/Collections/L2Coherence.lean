import Mathlib.Data.Fintype.Basic
import ThreeTears.Collections.TierSteps

/-!
# L2 coherence

A row enters L2 in two ways: a read seeds what it fetched from L3, a save writes what it committed.
Both write at the revision the key had before they looked at L3. Every operation that changes L3 has
its own L2 message still to send when it does.

The revision does not tell a key that was never written from one whose entry has lapsed. An
operation that found no entry can write over everything that happened in between.
-/

namespace ThreeTears

open Function Op

variable {P Row ι : Type*}

namespace Op

def owesL2 : Op P Row → Bool
  | .save _ (.committed _ _ _) => true
  | .save _ (.stored _ _ _) => true
  | .save _ (.refused _ _) => true
  | .save _ (.unread _) => true
  | .save _ (.unreadEvicted _) => true
  | .withdraw _ committed .changed => committed
  | .withdraw _ committed .fenced => committed
  | .withdraw _ committed .evicted => committed
  | _ => false

def plan : Op P Row → Option (Row × Nat)
  | .read _ _ (.fetched row revision) => some (row, revision)
  | .save _ (.committed row _ revision) => some (row, revision)
  | .save _ (.stored row _ revision) => some (row, revision)
  | _ => none

def revision : Op P Row → Option Nat
  | .read _ _ (.missed revision _) => some revision
  | .read _ _ (.fetched _ revision) => some revision
  | .read _ _ (.absent revision _) => some revision
  | .save _ (.before _ _ revision) => some revision
  | .save _ (.committed _ _ revision) => some revision
  | .save _ (.stored _ _ revision) => some revision
  | _ => none

lemma revision_of_plan {op : Op P Row} {row : Row} {r : Nat} (h : op.plan = some (row, r)) :
    op.revision = some r := by
  unfold plan at h
  split at h
  all_goals simp_all [revision]

end Op

/-- What relates the L2 entry, the L3 row and the writes to L2 still to come. -/
structure L2Inv (l3 : Option Row) (l2 : KvKey Row) (ops : ι → Op P Row) : Prop where
  revision_le : ∀ i r, (ops i).revision = some r → r ≤ l2.sequence
  entry : ∀ row, l2.value = some row → l3 = some row ∨ ∃ j, (ops j).owesL2 = true
  planned : ∀ i row r, (ops i).plan = some (row, r) → l2.revision = r →
    l3 = some row ∨ ∃ j, j ≠ i ∧ (ops j).owesL2 = true

namespace L2Inv

variable {l3 : Option Row} {l2 : KvKey Row} {ops : ι → Op P Row} {i : ι} {op : Op P Row}
  (h : L2Inv l3 l2 ops)
include h

lemma foreign : L2Inv l3 l2.foreign ops where
  __ := h
  revision_le i r hr := Nat.le_succ_of_le (h.revision_le i r hr)

lemma lapse (hset : ∀ i, (ops i).revision ≠ some 0) : L2Inv l3 l2.lapse ops where
  revision_le := h.revision_le
  entry _ hrow := by cases hrow
  planned i row r hi hr := by
    cases hr
    exact absurd (revision_of_plan hi) (hset i)

variable [DecidableEq ι]

lemma setOp (hrev : ∀ r, op.revision = some r → (ops i).revision = some r ∨ r = l2.revision)
    (ho : (ops i).owesL2 = true → op.owesL2 = true)
    (hpl : ∀ row r, op.plan = some (row, r) → l3 = some row ∨ (ops i).plan = some (row, r)) :
    L2Inv l3 l2 (update ops i op) := by
  have hl : ∀ j, (ops j).owesL2 = true → (update ops i op j).owesL2 = true := by
    intro j hj
    rcases eq_or_ne j i with rfl | hi
    · rw [update_self]
      exact ho hj
    · rwa [update_of_ne hi]
  refine ⟨?_, ?_, ?_⟩
  · intro j r hr
    rcases eq_or_ne j i with rfl | hi
    · rw [update_self] at hr
      rcases hrev r hr with hr | rfl
      · exact h.revision_le j r hr
      · exact l2.revision_le
    rw [update_of_ne hi] at hr
    exact h.revision_le j r hr
  · intro row hrow
    rcases h.entry row hrow with h3 | ⟨j, hj⟩
    · exact .inl h3
    · exact .inr ⟨j, hl j hj⟩
  intro j row r hj hr
  have hj : l3 = some row ∨ (ops j).plan = some (row, r) := by
    rcases eq_or_ne j i with rfl | hi
    · rw [update_self] at hj
      exact hpl row r hj
    rw [update_of_ne hi] at hj
    exact .inr hj
  rcases hj with h3 | hj
  · exact .inl h3
  rcases h.planned j row r hj hr with h3 | ⟨k, hkj, hk⟩
  · exact .inl h3
  · exact .inr ⟨k, hkj, hl k hk⟩

lemma push {v : Option Row} (hrev : op.revision = none)
    (hv : ∀ row, v = some row → (ops i).plan = some (row, l2.revision)) :
    L2Inv l3 (l2.push v) (update ops i op) := by
  refine ⟨?_, ?_, ?_⟩
  · intro j r hr
    rcases eq_or_ne j i with rfl | hi
    · simp [hrev] at hr
    rw [update_of_ne hi] at hr
    exact Nat.le_succ_of_le (h.revision_le j r hr)
  · intro row hrow
    rcases h.planned i row _ (hv row hrow) rfl with h3 | ⟨j, hi, hj⟩
    · exact .inl h3
    · exact .inr ⟨j, by rwa [update_of_ne hi]⟩
  -- every revision read so far is older than the message
  intro j row r hj hr
  rcases eq_or_ne j i with rfl | hi
  · rw [update_self] at hj
    simp [revision_of_plan hj] at hrev
  rw [update_of_ne hi] at hj
  have := h.revision_le j r (revision_of_plan hj)
  exact absurd hr (KvKey.push_revision_ne this)

lemma commit {row : Option Row} (hrev : ∀ r, op.revision = some r → (ops i).revision = some r)
    (ho : op.owesL2 = true) (hl : ∀ x r, op.plan = some (x, r) → row = some x) :
    L2Inv row l2 (update ops i op) := by
  refine ⟨?_, ?_, ?_⟩
  · intro j r hr
    rcases eq_or_ne j i with rfl | hi
    · rw [update_self] at hr
      exact h.revision_le j r (hrev r hr)
    rw [update_of_ne hi] at hr
    exact h.revision_le j r hr
  · intro x _
    exact .inr ⟨i, by rwa [update_self]⟩
  intro j x r hj _
  rcases eq_or_ne j i with rfl | hi
  · rw [update_self] at hj
    exact .inl (hl x r hj)
  · exact .inr ⟨i, hi.symm, by rwa [update_self]⟩

end L2Inv

namespace Tiers

/-- The lifetime of the entry runs out only while no operation has a write to come at the revision
of a key without one. -/
def Settled (s : Tiers P Row ι) : TierAct P Row ι → Prop
  | .lapse => ∀ i, (s.ops i).revision ≠ some 0
  | _ => True

instance [Fintype ι] (s : Tiers P Row ι) (a) : Decidable (s.Settled a) := by
  unfold Settled
  split <;> infer_instance

variable {s s' : Tiers P Row ι} {a : TierAct P Row ι}

lemma L2Inv_of_starts (h : s.Starts) : L2Inv s.l3 s.l2 s.ops where
  revision_le i r hr := by simp [h.idle i, revision] at hr
  entry row hrow := .inl (h.l2 row hrow)
  planned i row r hi := by simp [h.idle i, plan] at hi

variable [DecidableEq P] [DecidableEq ι]

lemma L2Inv_moves (h : L2Inv s.l3 s.l2 s.ops) (hset : s.Settled a) (hm : s.Moves a s') :
    L2Inv s'.l3 s'.l2 s'.ops := by
  cases hm with
  | foreign => exact h.foreign
  | lapse ha =>
    subst ha
    exact h.lapse hset
  | expire p => exact h
  | readSeeded hop | saveUpdated hop => exact h.push rfl (by simp [hop, plan])
  | readDropped hop => exact h.push rfl (by simp)
  | saveDelete hop | saveUnreadDelete hop | withdrawDelete hop | peerDelete hop =>
    exact h.push rfl (by simp)
  | saveCommit hop => exact h.commit (by simp [hop, revision]) rfl (by simp [plan])
  | withdrawCommit row hop => exact h.commit (by simp [revision]) rfl (by simp [plan])
  | saveStored hop hrow =>
    apply h.setOp (by simp [hop, revision]) (by simp [owesL2])
    rintro _ _ ⟨⟩
    rcases hrow with rfl | h3
    · exact .inr (by rw [hop]; rfl)
    · exact .inl h3
  | readFetched hop h3 =>
    apply h.setOp (by simp [hop, revision]) (by simp [hop, owesL2])
    rintro _ _ ⟨⟩
    exact .inl h3
  | saveBegin row hop =>
    rcases hop with hop | hop
    all_goals exact h.setOp (by simp [revision]) (by simp [hop, owesL2]) (by simp [plan])
  | _ =>
    clear hset
    apply h.setOp
    · simp_all [revision]
    · simp_all [owesL2]
    · simp_all [plan]

variable [∀ (s : Tiers P Row ι) a, Decidable (s.Settled a)]

lemma L2Inv_of_run {s₀ : Tiers P Row ι} {acts : List (TierAct P Row ι)} (h₀ : s₀.Starts)
    (hr : (system.guard Settled).run s₀ acts = some s) : L2Inv s.l3 s.l2 s.ops :=
  system.run_guard_invariant (fun _ _ _ h hset ht => L2Inv_moves h hset (moves_of_step ht))
    (L2Inv_of_starts h₀) hr

/-- As long as entries lapse only while no write at the revision of an absent key is to come:
whenever the L2 entry is not the row L3 has, some operation has changed L3 and still owes L2 its
message; with no operation in flight, the key is absent from L2 or holds L3's row. -/
theorem l2_coherent {s₀ : Tiers P Row ι} {acts : List (TierAct P Row ι)} (h₀ : s₀.Starts)
    (hrun : (system.guard Settled).run s₀ acts = some s) :
    (∀ row, s.l2.value = some row → s.l3 ≠ some row → ∃ i, (s.ops i).owesL2 = true) ∧
      ((∀ i, s.ops i = .idle) → s.l2.value = none ∨ s.l2.value = s.l3) := by
  have h := L2Inv_of_run h₀ hrun
  constructor
  · intro row hrow he
    rcases h.entry row hrow with h3 | ho
    · exact absurd h3 he
    · exact ho
  intro hidle
  cases hva : s.l2.value with
  | none => exact .inl rfl
  | some row =>
    rcases h.entry row hva with h3 | ⟨i, hi⟩
    · exact .inr h3.symm
    · simp [hidle i, owesL2] at hi

/-- A read seeds the row and its entry lapses; the row is seeded again, and saved over. -/
def saveAfterSeed : List (TierAct Bool Nat Bool) :=
  [.readBegin false false, .readLookup false true, .readFetch false true, .readSeed false,
    .lapse, .readCache false, .readEnd false,
    .readBegin false true, .readLookup false true, .readFetch false true, .readSeed false,
    .saveBegin true true 2, .saveRevision true, .saveCommit true]

theorem l2_coherent_saveAfterSeed :
    ∃ s, (system.guard Settled).run (cold (some 1)) saveAfterSeed = some s ∧
      s.l2.value = some 1 ∧ s.l3 = some 2 ∧ ∃ i, (s.ops i).owesL2 = true := by
  refine StepSystem.exists_run_imp _ (p := fun s => s.l2.value = some 1 ∧ s.l3 = some 2) rfl
    fun s hr hs => ?_
  exact ⟨hs.1, hs.2, (l2_coherent (starts_cold _) hr).1 1 hs.1 (by simp [hs.2])⟩

/-- A read finds no entry and fetches the row; a save writes the next one to L3 and L2, and its
entry lapses before the read seeds what it fetched. -/
def seedAfterLapse : List (TierAct Unit Nat Bool) :=
  [.readBegin false (), .readLookup false true, .readFetch false true,
    .saveBegin true () 2, .saveRevision true, .saveCommit true, .saveAsSent true, .saveUpdate true,
    .saveCache true, .saveEnd true, .announce true,
    .lapse, .readSeed false, .readCache false, .readEnd false]

/-- Nothing is in flight, and L2 has the row that was saved over. -/
theorem l2_stale_seedAfterLapse : ∃ s, system.run (cold (some 1)) seedAfterLapse = some s ∧
      (∀ i, s.ops i = .idle) ∧ s.l2.value = some 1 ∧ s.l3 = some 2 :=
  system.exists_run_of_any rfl

end Tiers

end ThreeTears
