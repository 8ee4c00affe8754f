import Mathlib.Data.Prod.Lex
import Mathlib.Tactic.Common

/-!
# The order of compare-and-swap writes

`L2Order` says where a compare-and-swap write sits in its key's history: in which incarnation of
the bucket, by its creation time, and at which revision there. Orders compare field by field.
-/

namespace ThreeTears

/-- The creation time of the stream a swap was won in, and the revision it won. -/
structure L2Order where
  epoch : Nat
  revision : Nat
  deriving DecidableEq

namespace L2Order

def toProd (o : L2Order) : Nat ×ₗ Nat := toLex (o.epoch, o.revision)

lemma toProd_injective : Function.Injective toProd := by
  rintro ⟨e, r⟩ ⟨e', r'⟩ h
  cases h
  rfl

instance : LinearOrder L2Order := LinearOrder.lift' toProd toProd_injective

lemma lt_iff {a b : L2Order} :
    a < b ↔ a.epoch < b.epoch ∨ a.epoch = b.epoch ∧ a.revision < b.revision :=
  Prod.Lex.lt_iff (x := toProd a) (y := toProd b)

lemma mk_le_mk {epoch rev rev' : Nat} (h : rev ≤ rev') :
    (⟨epoch, rev⟩ : L2Order) ≤ ⟨epoch, rev'⟩ := by
  refine not_lt.1 fun hlt => ?_
  rcases lt_iff.1 hlt with he | ⟨-, hrev⟩
  · exact absurd he (lt_irrefl _)
  · exact absurd h (not_le.2 hrev)

end L2Order

end ThreeTears
