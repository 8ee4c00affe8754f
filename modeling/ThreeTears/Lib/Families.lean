import Mathlib.Data.Set.Card

/-!
# Families in which one member is replaced

What holds of every member of a family, and how many of them have a property, when one member is
replaced.
-/

open Function

variable {ι β : Type*} [DecidableEq ι] {Q : β → Prop} {f : ι → β} {i : ι} {b : β}

lemma forall_update {I : ι → β → Prop} (h : ∀ j, I j (f j)) (hb : I i b) (j : ι) :
    I j (update f i b j) :=
  (Function.forall_update_iff f I).2 ⟨hb, fun k _ => h k⟩ j

lemma of_update_eq {j : ι} {c : β} (h : update f i b j = c) : j = i ∧ b = c ∨ j ≠ i ∧ f j = c :=
  ite_eq_iff.1 ((update_apply f i b j).symm.trans h)

lemma forall_update₂ {γ : Type*} {g : ι → γ} {c : γ} {I : ι → β → γ → Prop}
    (h : ∀ j, I j (f j) (g j)) (hi : I i b c) (j : ι) : I j (update f i b j) (update g i c j) := by
  obtain rfl | hj := eq_or_ne j i
  · simpa using hi
  · simpa [hj] using h j

lemma encard_update_of_iff (h : Q b ↔ Q (f i)) :
    {j | Q (update f i b j)}.encard = {j | Q (f j)}.encard := by
  congr 1
  ext j
  obtain rfl | hi := eq_or_ne j i
  · simp [h]
  · simp [hi]

lemma encard_update_of_gain (h : ¬ Q (f i)) (hb : Q b) :
    {j | Q (update f i b j)}.encard = {j | Q (f j)}.encard + 1 := by
  have : {j | Q (update f i b j)} = insert i {j | Q (f j)} := by
    ext j
    obtain rfl | hji := eq_or_ne j i
    · simp [hb]
    · simp [hji]
  have hi : i ∉ {j | Q (f j)} := h
  rw [this, Set.encard_insert_of_notMem hi]

lemma encard_update_of_loss (h : Q (f i)) (hb : ¬ Q b) :
    {j | Q (update f i b j)}.encard + 1 = {j | Q (f j)}.encard := by
  have := encard_update_of_gain (f := update f i b) (i := i) (b := f i)
    (by rwa [update_self]) h
  simpa using this.symm

omit [DecidableEq ι] in
lemma encard_eq_sub_one {A : Set ι} {n : Nat} (h : A.encard + 1 = n) :
    A.encard = ((n - 1 : Nat) : ℕ∞) := by
  cases n with
  | zero => simp at h
  | succ n =>
    rw [Nat.cast_add, Nat.cast_one] at h
    exact ENat.add_left_injective_of_ne_top ENat.one_ne_top h
