import Mathlib.Data.List.Basic

/-!
# Lists

Runs of elements that have a property: at the front of a list, and in the middle of it.
-/

namespace List

variable {α : Type*} {l : List α}

/-- What is dropped from the front is all that is dropped, if nothing after an element that stays
would go. -/
lemma dropWhile_eq_filter_not {p : α → Bool} (h : l.Pairwise fun a b => p b → p a) :
    l.dropWhile p = l.filter fun a => !p a := by
  induction l with
  | nil => rfl
  | cons a l ih =>
    obtain ⟨ha, hl⟩ := pairwise_cons.1 h
    by_cases hp : p a = true
    · rw [dropWhile_cons_of_pos hp, filter_cons_of_neg (by simpa using hp), ih hl]
    · rw [dropWhile_cons_of_neg hp, eq_comm, filter_eq_self]
      intro b hb
      rcases mem_cons.1 hb with rfl | hb
      · simpa using hp
      · simpa using fun hpb => hp (ha b hb hpb)

/-- The elements of a property are counted by where they stand. -/
lemma countP_eq_of_block {p : α → Prop} [DecidablePred p] {a n : ℕ} (hl : a + n ≤ l.length)
    (h : ∀ i t, l[i]? = some t → (p t ↔ a ≤ i ∧ i < a + n)) : l.countP p = n := by
  induction l generalizing a n with
  | nil => simp_all
  | cons x l ih =>
    have hx := h 0 x rfl
    rw [length_cons] at hl
    rw [countP_cons]
    match a, n with
    | 0, 0 =>
      rw [ih (a := 0) (n := 0) (by omega) fun i t hi => (h (i + 1) t hi).trans (by omega)]
      simp [hx]
    | 0, n + 1 =>
      rw [ih (a := 0) (n := n) (by omega) fun i t hi => (h (i + 1) t hi).trans (by omega)]
      simp [hx]
    | a + 1, n =>
      rw [ih (a := a) (n := n) (by omega) fun i t hi => (h (i + 1) t hi).trans (by omega)]
      simp [hx]

lemma modify_length_concat (l : List α) (x : α) (f : α → α) :
    (l ++ [x]).modify l.length f = l ++ [f x] := by
  induction l with
  | nil => rfl
  | cons _ _ ih => simpa using ih

end List
