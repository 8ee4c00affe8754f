import ThreeTears.Lib.Dict
import Mathlib.Algebra.Order.BigOperators.Group.List
import Mathlib.Algebra.Order.Group.Nat
import Mathlib.Data.List.Induction

/-!
# Values gathered by key

The values of a list in a dictionary from key to the values with that key, in the list's order. How
many values the keys of a set have is counted on the dictionary as on the list.
-/

namespace Dict

open List

variable {K V W : Type*} [DecidableEq K] {d : Dict K V} {k k' : K} {v : V} {ws : List W}

def push (d : Dict K (List W)) (k : K) (w : W) : Dict K (List W) :=
  d.set k ((d.get k).getD [] ++ [w])

/-- The values by their key, each list in the order the values came. -/
def gather (key : W → K) (ws : List W) : Dict K (List W) :=
  ws.foldl (fun d w => d.push (key w) w) empty

omit [DecidableEq K] in
def size (p : K → Bool) (l : List (K × List W)) : Nat :=
  (l.map fun e => if p e.1 then e.2.length else 0).sum

omit [DecidableEq K] in
lemma size_append (p : K → Bool) (l l' : List (K × List W)) :
    size p (l ++ l') = size p l + size p l' := by
  simp [size]

omit [DecidableEq K] in
@[simp] lemma size_singleton (p : K → Bool) (e : K × List W) :
    size p [e] = if p e.1 then e.2.length else 0 := by
  simp [size]

omit [DecidableEq K] in
lemma size_eq_zero {p : K → Bool} {l : List (K × List W)} (h : ∀ e ∈ l, p e.1 = false) :
    size p l = 0 := by
  rw [size, sum_eq_zero]
  intro n hn
  obtain ⟨e, he, rfl⟩ := mem_map.1 hn
  simp [h e he]

omit [DecidableEq K] in
lemma size_eq_length {p : K → Bool} {l l' : List (K × List W)} {e : K × List W} (he : p e.1)
    (hl : ∀ e' ∈ l ++ l', p e'.1 = false) : size p (l ++ e :: l') = e.2.length := by
  rw [← singleton_append, size_append, size_append, size_singleton, if_pos he,
    size_eq_zero fun e' h => hl e' (mem_append_left _ h),
    size_eq_zero fun e' h => hl e' (mem_append_right _ h)]
  omega

omit [DecidableEq K] in
lemma size_le_size {p q : K → Bool} {l : List (K × List W)}
    (h : ∀ e ∈ l, p e.1 → q e.1) : size p l ≤ size q l := by
  refine sum_le_sum fun e he => ?_
  by_cases hp : p e.1 = true
  · simp [hp, h e he hp]
  · simp [hp]

lemma gather_concat (key : W → K) (ws : List W) (w : W) :
    gather key (ws ++ [w]) = (gather key ws).push (key w) w := by
  simp [gather, foldl_append]

lemma size_assign (p : K → Bool) (k : K) (v : List W) (l : List (K × List W)) :
    size p (assign k v l) + (if p k then ((lookup k l).getD []).length else 0) =
      size p l + if p k then v.length else 0 := by
  induction l with
  | nil => simp [size, assign, lookup]
  | cons e l ih =>
    by_cases he : e.1 = k
    · simp only [size, assign, lookup, he, if_true, map_cons, sum_cons]
      simp only [Option.getD_some]
      omega
    simp only [size, assign, lookup, he, if_false, map_cons, sum_cons] at ih ⊢
    omega

lemma size_push (p : K → Bool) (d : Dict K (List W)) (k : K) (w : W) :
    size p (d.push k w).entries = size p d.entries + if p k then 1 else 0 := by
  have h : size p (d.push k w).entries + (if p k then ((d.get k).getD []).length else 0) =
      size p d.entries + if p k then ((d.get k).getD [] ++ [w]).length else 0 :=
    size_assign p k _ d.entries
  split_ifs at h ⊢
  · rw [length_append, length_singleton] at h
    omega
  · exact h

lemma size_gather (p : K → Bool) (key : W → K) (ws : List W) :
    size p (gather key ws).entries = ws.countP fun w => p (key w) := by
  induction ws using reverseRecOn with
  | nil => rfl
  | append_singleton ws w ih => rw [gather_concat, size_push, ih, countP_append, countP_singleton]

lemma mem_keys_set : k' ∈ (d.set k v).keys ↔ k' = k ∨ k' ∈ d.keys := by
  rw [keys, set, map_fst_assign, ← keys]
  split_ifs with hk
  · constructor
    · exact .inr
    rintro (rfl | h)
    · exact hk
    · exact h
  · rw [mem_append, mem_singleton, or_comm]

lemma mem_keys_gather {key : W → K} : k ∈ (gather key ws).keys ↔ ∃ w ∈ ws, key w = k := by
  induction ws using reverseRecOn with
  | nil => simp [gather, keys, empty]
  | append_singleton ws w ih =>
    rw [gather_concat, push, mem_keys_set, ih]
    constructor
    · rintro (rfl | ⟨w', hw', hkey⟩)
      · exact ⟨w, by simp, rfl⟩
      · exact ⟨w', by simp [hw'], hkey⟩
    rintro ⟨w', hw', rfl⟩
    obtain hw' | hw' := mem_append.1 hw'
    · exact .inr ⟨w', hw', rfl⟩
    · exact .inl (by rw [mem_singleton.1 hw'])

lemma ne_nil_of_mem_gather {key : W → K} {vs : List W} (h : (k, vs) ∈ (gather key ws).entries) :
    vs ≠ [] := by
  rw [← get_eq_some_iff] at h
  induction ws using reverseRecOn generalizing vs with
  | nil => cases h
  | append_singleton ws w ih =>
    rw [gather_concat, push] at h
    obtain rfl | hk := eq_or_ne k (key w)
    · rw [get_set_self] at h
      cases h
      simp
    rw [get_set_of_ne hk] at h
    exact ih h

end Dict
