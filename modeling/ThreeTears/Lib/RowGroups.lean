import Mathlib.Data.List.Perm.Subperm

/-!
# Rows by group

Rows of a list by the value of a function. A list is brought to another one group at a time: some
groups are kept, some dropped, and some taken from the other list.
-/

namespace ThreeTears

open List

variable {α β : Type*} [DecidableEq α] [DecidableEq β] {f : α → β}

lemma count_filter_ite (p : α → Bool) (a : α) (l : List α) :
    (l.filter p).count a = if p a then l.count a else 0 := by
  split_ifs with h
  · exact count_filter h
  · exact count_eq_zero.2 fun ha => h (mem_filter.1 ha).2

lemma flatten_groups_perm (l : List α) {vs : List β} {p : β → Bool} (hvs : vs.Nodup)
    (hp : ∀ a ∈ l, p (f a) ↔ f a ∈ vs) :
    (vs.map fun v => l.filter (f · = v)).flatten.Perm (l.filter fun a => p (f a)) := by
  have hmem : l.filter (fun a => p (f a)) = l.filter (f · ∈ vs) :=
    filter_congr fun a ha => by
      rw [Bool.eq_iff_iff, decide_eq_true_iff]
      exact hp a ha
  rw [hmem]
  clear hmem hp
  induction vs with
  | nil => simp
  | cons v vs ih =>
    obtain ⟨hv, hvs⟩ := nodup_cons.1 hvs
    rw [map_cons, flatten_cons]
    refine ((ih hvs).append_left _).trans (perm_iff_count.2 fun a => ?_)
    simp only [count_append, count_filter_ite, decide_eq_true_eq, mem_cons]
    by_cases hfa : f a = v
    · simp [hfa, hv]
    · simp [hfa]

/-- A list whose groups are kept, or taken from `now`, has the groups `w` of `now`. `k` are
the groups kept. -/
theorem replaced_groups_perm {old now : List α} {reread : List β} {k w : β → Bool}
    (ho : reread.Nodup) (he : ∀ v ∈ reread, k v = false ∧ w v)
    (hd : ∀ v, k v = false → v ∉ reread → w v → now.filter (f · = v) = [])
    (hke : ∀ v, k v → (old.filter (f · = v)).Perm (now.filter (f · = v)) ∧
      (¬w v → now.filter (f · = v) = [])) :
    (old.filter (fun a => k (f a)) ++ (reread.map fun v => now.filter (f · = v)).flatten).Perm
      (now.filter fun a => w (f a)) := by
  have hpa : (reread.map fun v => now.filter (f · = v)).flatten.Perm
    (now.filter (f · ∈ reread)) :=
    flatten_groups_perm (p := fun v => decide (v ∈ reread)) now ho (by simp)
  refine (hpa.append_left _).trans (perm_iff_count.2 fun a => ?_)
  have hnone : now.filter (f · = f a) = [] → now.count a = 0 := fun h => by
    have hc := count_filter_ite (fun b => f b = f a) a now
    simpa [h] using hc.symm
  simp only [count_append, count_filter_ite, decide_eq_true_eq]
  cases hk : k (f a) with
  | false =>
    by_cases hr : f a ∈ reread
    · simp [hr, (he _ hr).2]
    by_cases hw : w (f a) = true
    · simp [hr, hw, hnone (hd _ hk hr hw)]
    · simp [hr, hw]
  | true =>
    have hr : f a ∉ reread := fun hr => by cases hk.symm.trans (he _ hr).1
    obtain ⟨hpe, hw⟩ := hke _ hk
    have hc : old.count a = now.count a := by
      simpa [count_filter_ite] using perm_iff_count.1 hpe a
    by_cases hwa : w (f a) = true
    · simp [hr, hwa, hc]
    · simp [hr, hwa, hc, hnone (hw hwa)]

omit [DecidableEq α] in
/-- A group without marked rows, where the unmarked rows are old ones, is the old group if it has as
many rows. -/
lemma group_perm_of_length {old now : List α} {marked : α → Bool} {v : β}
    (hold : (now.filter (!marked ·)).Subperm old) (hm : ∀ a ∈ now, f a = v → marked a = false)
    (hl : (old.filter (f · = v)).length = (now.filter (f · = v)).length) :
    (old.filter (f · = v)).Perm (now.filter (f · = v)) := by
  have he : (now.filter (!marked ·)).filter (f · = v) = now.filter (f · = v) := by
    rw [List.filter_filter]
    refine filter_congr fun a ha => ?_
    by_cases hfa : f a = v
    · simp [hfa, hm a ha hfa]
    · simp [hfa]
  have hu : (now.filter (f · = v)).Subperm (old.filter (f · = v)) := he ▸ hold.filter _
  exact (hu.perm_of_length_le (Nat.le_of_eq hl)).symm

end ThreeTears
