import Mathlib.Order.Lattice
import Mathlib.Tactic.Common

/-!
# A cell fenced on an order

A cell holds at most one row. A row may carry an order; a fenced write is taken only over a row
whose order is strictly older than its own, where a row without an order is older than every
order. Such a cell never goes back, in whichever sequence the writes reach it.
-/

namespace OrderedCell

variable {ω α : Type*} [LinearOrder ω] (orderOf : α → Option ω)

/-- The cell holds a row whose order is `o` or later. -/
def AtLeast (cell : Option α) (o : ω) : Prop :=
  ∃ row o', cell = some row ∧ orderOf row = some o' ∧ o ≤ o'

/-- A write of order `o` is taken over what the cell holds. -/
def Older (cell : Option α) (o : ω) : Prop := ∀ row ∈ cell, ∀ o' ∈ orderOf row, o' < o
deriving Decidable

def Takes (cell : Option α) (row : α) : Prop := ∃ o ∈ orderOf row, Older orderOf cell o
deriving Decidable

def upsert (cell : Option α) (row : α) : Option α :=
  if Takes orderOf cell row then some row else cell

variable {orderOf} {cell : Option α} {row : α} {o o' : ω}

lemma not_older_iff : ¬ Older orderOf cell o ↔ AtLeast orderOf cell o := by
  constructor
  · intro h
    simp only [Older, not_forall, not_lt] at h
    obtain ⟨row, hrow, o', ho', hle⟩ := h
    exact ⟨row, o', hrow, ho', hle⟩
  rintro ⟨row, o', hrow, ho', hle⟩ h
  exact absurd (h row hrow o' ho') (not_lt.2 hle)

lemma AtLeast.mono (h : AtLeast orderOf cell o) (hle : o' ≤ o) : AtLeast orderOf cell o' := by
  obtain ⟨row, o'', hrow, ho'', hl'⟩ := h
  exact ⟨row, o'', hrow, ho'', le_trans hle hl'⟩

lemma atLeast_some (h : orderOf row = some o) : AtLeast orderOf (some row) o :=
  ⟨row, o, rfl, h, le_refl o⟩

lemma atLeast_of_not_takes (h : ¬ Takes orderOf cell row) (ho : orderOf row = some o) :
    AtLeast orderOf cell o := by
  refine not_older_iff.1 fun hold => h ⟨o, ho, hold⟩

lemma atLeast_upsert_self (ho : orderOf row = some o) :
    AtLeast orderOf (upsert orderOf cell row) o := by
  unfold upsert
  split_ifs with h
  · exact atLeast_some ho
  · exact atLeast_of_not_takes h ho

lemma AtLeast.upsert (h : AtLeast orderOf cell o) (row : α) :
    AtLeast orderOf (upsert orderOf cell row) o := by
  unfold OrderedCell.upsert
  split_ifs with ht
  · obtain ⟨o', ho', hold⟩ := ht
    obtain ⟨stored, o'', hst, ho'', hle⟩ := h
    exact (atLeast_some ho').mono (le_of_lt (lt_of_le_of_lt hle (hold stored hst o'' ho'')))
  · exact h

lemma upsert_eq_or (orderOf : α → Option ω) (cell : Option α) (row : α) :
    upsert orderOf cell row = some row ∨ upsert orderOf cell row = cell := by
  unfold upsert
  split_ifs
  · exact .inl rfl
  · exact .inr rfl

end OrderedCell
