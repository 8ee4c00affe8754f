import ThreeTears.Lib.Dict
import ThreeTears.Collections.L2Order
import Mathlib.Data.Finset.Union

/-!
# The write buffer

`WriteBuffer` coalesces the pending L3 writes of a collection by key. A flush claims what it drains;
`ack` and `re_enqueue` act only while the key is claimed, and a newer `add` clears the claim. With
an L1 backend the pending writes are also rows of a durable table, and `drain` reads those.
-/

namespace ThreeTears

open Dict

structure PendingWrite (V : Type*) where
  data : V
  retries : Nat
  deriving DecidableEq

/-- The buffer: its dictionary, the claimed keys and, with an L1 backend, the durable rows. -/
structure WriteBuffer (K V : Type*) where
  buf : Dict K (PendingWrite V)
  inFlight : Finset K
  l1 : Option (Dict K (PendingWrite V))

namespace WriteBuffer

variable {K V : Type*} [DecidableEq K] (orderOf : V → Option L2Order)

def opened (l1 : Option (Dict K (PendingWrite V))) : WriteBuffer K V where
  buf := Dict.empty
  inFlight := ∅
  l1 := l1

def rows (wb : WriteBuffer K V) : Dict K (PendingWrite V) := wb.l1.getD wb.buf

def held (wb : WriteBuffer K V) (k : K) : Option (PendingWrite V) := wb.rows.get k

/-- `_orders_after`: both rows carry a swap order, and the pending one's is strictly later. -/
def ordersAfter (pending incoming : V) : Bool :=
  match orderOf pending, orderOf incoming with
  | some p, some i => decide (i < p)
  | _, _ => false

def store (wb : WriteBuffer K V) (k : K) (pw : PendingWrite V) : WriteBuffer K V where
  buf := wb.buf.set k pw
  inFlight := wb.inFlight.erase k
  l1 := wb.l1.map fun d => d.set k pw

def discard (wb : WriteBuffer K V) (k : K) : WriteBuffer K V where
  buf := wb.buf.erase k
  inFlight := wb.inFlight.erase k
  l1 := wb.l1.map fun d => d.erase k

def superseded (wb : WriteBuffer K V) (k : K) (data : V) : Bool :=
  match wb.buf.get k with
  | some pending => ordersAfter orderOf pending.data data
  | none => false

def addLocked (wb : WriteBuffer K V) (k : K) (data : V) (retries : Nat) : WriteBuffer K V :=
  if wb.superseded orderOf k data then wb else wb.store k ⟨data, retries⟩

def add (wb : WriteBuffer K V) (k : K) (data : V) : WriteBuffer K V := wb.addLocked orderOf k data 0

def unclaimed (wb : WriteBuffer K V) : List (K × PendingWrite V) :=
  wb.rows.entries.filter fun e => e.1 ∉ wb.inFlight

/-- What no drain has claimed yet is claimed and handed out. -/
def drain (wb : WriteBuffer K V) : WriteBuffer K V × List (K × PendingWrite V) :=
  ({ wb with inFlight := wb.inFlight ∪ (wb.unclaimed.map Prod.fst).toFinset }, wb.unclaimed)

def ack (wb : WriteBuffer K V) (k : K) : WriteBuffer K V :=
  if k ∈ wb.inFlight then wb.discard k else wb

def reEnqueue (wb : WriteBuffer K V) (k : K) (data : V) (retries : Nat) : WriteBuffer K V × Bool :=
  if k ∈ wb.inFlight then (wb.addLocked orderOf k data retries, true) else (wb, false)

def remove (wb : WriteBuffer K V) (k : K) : WriteBuffer K V × Bool :=
  (wb.discard k, (wb.buf.get k).isSome)

variable {orderOf} {wb : WriteBuffer K V} {k k' : K} {data : V} {pw : PendingWrite V}

lemma rows_store : (wb.store k pw).rows = wb.rows.set k pw := by
  cases h : wb.l1 <;> simp [rows, store, h]

lemma rows_discard : (wb.discard k).rows = wb.rows.erase k := by
  cases h : wb.l1 <;> simp [rows, discard, h]

@[simp] lemma held_store_self : (wb.store k pw).held k = some pw := by
  rw [held, rows_store, get_set_self]

lemma held_store_of_ne (hk : k' ≠ k) : (wb.store k pw).held k' = wb.held k' := by
  rw [held, rows_store, get_set_of_ne hk, held]

@[simp] lemma held_discard_self : (wb.discard k).held k = none := by
  rw [held, rows_discard, get_erase_self]

lemma held_discard_of_ne (hk : k' ≠ k) : (wb.discard k).held k' = wb.held k' := by
  rw [held, rows_discard, get_erase_of_ne hk, held]

@[simp] lemma held_drain : wb.drain.1.held k = wb.held k := rfl

lemma mem_unclaimed {e : K × PendingWrite V} :
    e ∈ wb.unclaimed ↔ wb.held e.1 = some e.2 ∧ e.1 ∉ wb.inFlight := by
  rw [unclaimed, List.mem_filter, held, get_eq_some_iff]
  simp

lemma mem_inFlight_drain :
    k ∈ wb.drain.1.inFlight ↔ k ∈ wb.inFlight ∨ ∃ pw, (k, pw) ∈ wb.unclaimed := by
  simp [drain]

lemma mem_inFlight_ack : k' ∈ (wb.ack k).inFlight ↔ k' ≠ k ∧ k' ∈ wb.inFlight := by
  unfold ack
  split_ifs with hk
  · exact Finset.mem_erase
  refine ⟨fun hk' => ⟨?_, hk'⟩, fun hk' => hk'.2⟩
  rintro rfl
  exact hk hk'

def ClaimsHeld (wb : WriteBuffer K V) : Prop := ∀ k ∈ wb.inFlight, ∃ pw, wb.held k = some pw

namespace ClaimsHeld

lemma opened (l1 : Option (Dict K (PendingWrite V))) : (opened l1).ClaimsHeld := by
  intro k hk
  simp [WriteBuffer.opened] at hk

variable (h : wb.ClaimsHeld)
include h

lemma store (k : K) (pw : PendingWrite V) : (wb.store k pw).ClaimsHeld := by
  intro k' hk'
  obtain ⟨he, hin⟩ := Finset.mem_erase.1 hk'
  rw [held_store_of_ne he]
  exact h k' hin

lemma discard (k : K) : (wb.discard k).ClaimsHeld := by
  intro k' hk'
  obtain ⟨he, hin⟩ := Finset.mem_erase.1 hk'
  rw [held_discard_of_ne he]
  exact h k' hin

lemma drain : wb.drain.1.ClaimsHeld := by
  intro k hk
  obtain hk | ⟨pw, hw⟩ := mem_inFlight_drain.1 hk
  · exact h k hk
  · exact ⟨pw, (mem_unclaimed.1 hw).1⟩

lemma addLocked (k : K) (data : V) (retries : Nat) :
    (wb.addLocked orderOf k data retries).ClaimsHeld := by
  unfold WriteBuffer.addLocked
  split_ifs
  · exact h
  · exact h.store k _

lemma ack (k : K) : (wb.ack k).ClaimsHeld := by
  unfold WriteBuffer.ack
  split_ifs
  · exact h.discard k
  · exact h

lemma reEnqueue (k : K) (data : V) (retries : Nat) :
    (wb.reEnqueue orderOf k data retries).1.ClaimsHeld := by
  unfold WriteBuffer.reEnqueue
  split_ifs
  · exact h.addLocked k data retries
  · exact h

end ClaimsHeld

lemma held_addLocked_of_ne (hk : k' ≠ k) (retries : Nat) :
    (wb.addLocked orderOf k data retries).held k' = wb.held k' := by
  unfold addLocked
  split_ifs
  · rfl
  · exact held_store_of_ne hk

lemma held_ack_of_none (h : wb.held k' = none) : (wb.ack k).held k' = none := by
  unfold ack
  split_ifs
  · obtain rfl | hk := eq_or_ne k' k
    · exact held_discard_self
    · rwa [held_discard_of_ne hk]
  · exact h

lemma held_reEnqueue_of_none (hc : wb.ClaimsHeld) (h : wb.held k' = none) (retries : Nat) :
    (wb.reEnqueue orderOf k data retries).1.held k' = none := by
  unfold reEnqueue
  split_ifs with hin
  · have hk : k' ≠ k := by
      rintro rfl
      obtain ⟨pw, hw⟩ := hc k' hin
      rw [h] at hw
      cases hw
    rwa [held_addLocked_of_ne hk]
  · exact h

lemma lt_of_superseded (h : wb.superseded orderOf k data = true) :
    ∃ pending o o', wb.buf.get k = some pending ∧ orderOf data = some o ∧
      orderOf pending.data = some o' ∧ o < o' := by
  unfold superseded at h
  split at h
  next pending hg =>
    unfold ordersAfter at h
    split at h
    next o' o ho' ho => exact ⟨pending, o, o', hg, ho, ho', of_decide_eq_true h⟩
    next => cases h
  next => cases h

lemma le_of_not_superseded {pending : PendingWrite V} {o o' : L2Order}
    (h : wb.superseded orderOf k data = false) (hg : wb.buf.get k = some pending)
    (ho : orderOf data = some o) (ho' : orderOf pending.data = some o') : o' ≤ o := by
  simp only [superseded, hg, ordersAfter, ho, ho', decide_eq_false_iff_not, not_lt] at h
  exact h

def Agrees (wb : WriteBuffer K V) : Prop := ∀ k, wb.buf.get k = wb.held k

namespace Agrees

lemma opened (dur : Bool) :
    (opened (if dur then some .empty else none) : WriteBuffer K V).Agrees := by
  intro k
  cases dur <;> rfl

lemma store (h : wb.Agrees) (k : K) (pw : PendingWrite V) : (wb.store k pw).Agrees := by
  intro k'
  obtain rfl | hk := eq_or_ne k' k
  · rw [held_store_self]
    exact get_set_self _ _ _
  rw [held_store_of_ne hk, ← h k']
  exact get_set_of_ne hk _ _

lemma discard (h : wb.Agrees) (k : K) : (wb.discard k).Agrees := by
  intro k'
  obtain rfl | hk := eq_or_ne k' k
  · rw [held_discard_self]
    exact get_erase_self _ _
  rw [held_discard_of_ne hk, ← h k']
  exact get_erase_of_ne hk _

lemma addLocked (h : wb.Agrees) (k : K) (data : V) (retries : Nat) :
    (wb.addLocked orderOf k data retries).Agrees := by
  unfold WriteBuffer.addLocked
  split_ifs
  · exact h
  · exact h.store k _

end Agrees

end WriteBuffer

end ThreeTears
