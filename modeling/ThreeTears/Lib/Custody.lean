import Mathlib.Data.Finset.Card

/-!
# Custody of a resource

A resource is taken once and let go once. In between it is kept for those to come, or used by those
that have it still, or one party owes letting it go: its last user, or the one that gave it up when
there was none.
-/

inductive Custody (κ : Type*)
  | fresh
  | owed (c : κ)
  | kept (users : Finset κ)
  | used (users : Finset κ) (h : users.Nonempty)
  | released

namespace Custody

variable {κ : Type*} {c d : κ} {us : Finset κ} {v w : Custody κ}

def users : Custody κ → Finset κ
  | fresh => ∅
  | owed _ => ∅
  | kept us => us
  | used us _ => us
  | released => ∅

@[simp] lemma users_fresh : (fresh : Custody κ).users = ∅ := rfl
@[simp] lemma users_owed : (owed c).users = ∅ := rfl
@[simp] lemma users_kept : (kept us).users = us := rfl
@[simp] lemma users_used (h : us.Nonempty) : (used us h).users = us := rfl
@[simp] lemma users_released : (released : Custody κ).users = ∅ := rfl

/-- A resource with these users that is not kept: without any, `c` owes letting it go. -/
def ofUsers (c : κ) (us : Finset κ) : Custody κ := if h : us.Nonempty then used us h else owed c

lemma ofUsers_of_nonempty (h : us.Nonempty) : ofUsers c us = used us h := dif_pos h

@[simp] lemma ofUsers_empty : ofUsers c ∅ = owed c := dif_neg Finset.not_nonempty_empty

@[simp] lemma users_ofUsers : (ofUsers c us).users = us := by
  obtain rfl | h := us.eq_empty_or_nonempty
  · simp
  · simp [ofUsers_of_nonempty h]

@[simp] lemma ofUsers_eq_owed : ofUsers c us = owed d ↔ us = ∅ ∧ c = d := by
  obtain rfl | h := us.eq_empty_or_nonempty
  · simp
  · simp [ofUsers_of_nonempty h, h.ne_empty]

@[simp] lemma ofUsers_ne_kept {ws : Finset κ} : ofUsers c us ≠ kept ws := by
  obtain rfl | h := us.eq_empty_or_nonempty
  · simp
  · simp [ofUsers_of_nonempty h]

/-- `c` keeps the resource no longer. -/
def giveUp (c : κ) : Custody κ → Custody κ
  | kept us => ofUsers c us
  | fresh => fresh
  | owed d => owed d
  | used us h => used us h
  | released => released

lemma giveUp_of_not_kept (h : ∀ us, v ≠ kept us) : v.giveUp c = v := by
  cases v with
  | kept us => exact absurd rfl (h us)
  | _ => rfl

@[simp] lemma users_giveUp : (v.giveUp c).users = v.users := by cases v <;> simp [giveUp]

lemma giveUp_eq_owed : v.giveUp c = owed d ↔ v = owed d ∨ v = kept ∅ ∧ c = d := by
  cases v <;> simp [giveUp]

@[simp] lemma giveUp_ne_kept : v.giveUp c ≠ kept us := by cases v <;> simp [giveUp]

variable [DecidableEq κ]

/-- `c` uses the resource no longer. -/
def leave (c : κ) : Custody κ → Custody κ
  | kept us => kept (us.erase c)
  | used us _ => ofUsers c (us.erase c)
  | fresh => fresh
  | owed d => owed d
  | released => released

@[simp] lemma users_leave : (v.leave c).users = v.users.erase c := by cases v <;> simp [leave]

lemma leave_eq_owed :
    v.leave c = owed d ↔ v = owed d ∨ (∃ us h, v = used us h ∧ us.erase c = ∅) ∧ c = d := by
  cases v with
  | used us h => simp [leave, h, and_comm]
  | _ => simp [leave]

lemma exists_leave_eq_kept : (∃ us, v.leave c = kept us) ↔ ∃ us, v = kept us := by
  cases v <;> simp [leave]

inductive Moves (c : κ) : Custody κ → Custody κ → Prop
  | refl (v : Custody κ) : Moves c v v
  | take : Moves c fresh (owed c)
  | keep : Moves c (owed c) (kept {c})
  | use (us : Finset κ) : Moves c (kept us) (kept (insert c us))
  | giveUp (v : Custody κ) : Moves c v (v.giveUp c)
  | leave (v : Custody κ) : Moves c v (v.leave c)
  | release : Moves c (owed c) released

/-- What one party does with a resource changes nothing for another: neither what it owes nor
whether it uses the resource. -/
lemma Moves.other (h : Moves c v w) (hd : d ≠ c) :
    (w = owed d ↔ v = owed d) ∧ (d ∈ w.users ↔ d ∈ v.users) := by
  cases h with
  | refl => exact ⟨Iff.rfl, Iff.rfl⟩
  | take | release => simp [hd.symm]
  | keep => simp [hd, hd.symm]
  | use us => simp [hd]
  | giveUp => simp [giveUp_eq_owed, hd.symm]
  | leave => simp [leave_eq_owed, hd, hd.symm]

end Custody
