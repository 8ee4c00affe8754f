import Mathlib.Algebra.BigOperators.Group.Finset.Piecewise
import Mathlib.Algebra.GroupWithZero.Nat
import Mathlib.Algebra.Order.BigOperators.Group.Finset

/-!
# Files with hard links

A file has a name in each of some directories and exists while it has one. What some directories
hold together counts each of their files once.
-/

namespace ThreeTears

open Function Finset

/-- `dirs` are the directories with a name of the file. -/
structure LinkedFiles (F δ : Type*) where
  files : Finset F
  bytes : F → Nat
  dirs : F → Finset δ

namespace LinkedFiles

variable {F δ : Type*} (s : LinkedFiles F δ) (f : F) (d : δ) (n : Nat) {p q : δ → Bool}

def In (p : δ → Bool) (f : F) : Prop := ∃ d ∈ s.dirs f, p d
deriving Decidable

def bytesIn (p : δ → Bool) : Nat := ∑ f ∈ s.files, if s.In p f then s.bytes f else 0

def total : Nat := s.bytesIn fun _ => true

section Ops

variable [DecidableEq F]

def create : LinkedFiles F δ where
  files := insert f s.files
  bytes := update s.bytes f 0
  dirs := update s.dirs f {d}

def grow : LinkedFiles F δ := { s with bytes := update s.bytes f (s.bytes f + n) }

variable [DecidableEq δ]

def link : LinkedFiles F δ := { s with dirs := update s.dirs f (insert d (s.dirs f)) }

def unlink : LinkedFiles F δ := { s with dirs := update s.dirs f ((s.dirs f).erase d) }

end Ops

variable {s f d n} {s' : LinkedFiles F δ}

lemma bytesIn_le (hi : s'.files = s.files) (hb : s'.bytes = s.bytes)
    (h : ∀ f ∈ s.files, s'.In p f → s.In q f) : s'.bytesIn p ≤ s.bytesIn q := by
  rw [bytesIn, bytesIn, hi, hb]
  refine sum_le_sum fun f hf => ?_
  by_cases hp : s'.In p f
  · rw [if_pos hp, if_pos (h f hf hp)]
  rw [if_neg hp]
  exact Nat.zero_le _

lemma bytesIn_mono (h : ∀ d, p d → q d) : s.bytesIn p ≤ s.bytesIn q :=
  bytesIn_le rfl rfl fun _ _ ⟨d, hd, hp⟩ => ⟨d, hd, h d hp⟩

lemma bytesIn_congr (h : ∀ f, ∀ d ∈ s.dirs f, p d = q d) : s.bytesIn p = s.bytesIn q :=
  le_antisymm (bytesIn_le rfl rfl fun f _ ⟨d, hd, hp⟩ => ⟨d, hd, h f d hd ▸ hp⟩)
    (bytesIn_le rfl rfl fun f _ ⟨d, hd, hq⟩ => ⟨d, hd, (h f d hd).symm ▸ hq⟩)

lemma bytesIn_eq_zero (h : ∀ f, ∀ d ∈ s.dirs f, p d = false) : s.bytesIn p = 0 :=
  sum_eq_zero fun f _ => if_neg fun ⟨d, hd, hp⟩ => by
    rw [h f d hd] at hp
    cases hp

lemma bytesIn_or_le : s.bytesIn (fun d => p d || q d) ≤ s.bytesIn p + s.bytesIn q := by
  rw [bytesIn, bytesIn, bytesIn, ← sum_add_distrib]
  refine sum_le_sum fun f _ => ?_
  by_cases h : s.In (fun d => p d || q d) f
  · rw [if_pos h]
    obtain ⟨d, hd, hpq⟩ := h
    obtain hp | hq := Bool.or_eq_true_iff.1 hpq
    · have hin : s.In p f := ⟨d, hd, hp⟩
      rw [if_pos hin]
      exact Nat.le_add_right _ _
    have hin : s.In q f := ⟨d, hd, hq⟩
    rw [if_pos hin]
    exact Nat.le_add_left _ _
  rw [if_neg h]
  exact Nat.zero_le _

lemma bytesIn_any_le {ρ : Type*} (l : List ρ) (g : ρ → δ → Bool) :
    s.bytesIn (fun d => p d || l.any (g · d)) ≤
      s.bytesIn p + (l.map fun r => s.bytesIn (g r)).sum := by
  induction l with
  | nil => exact (bytesIn_mono fun d hd => by simpa using hd).trans (Nat.le_add_right _ _)
  | cons r l ih =>
    have hsp : s.bytesIn (fun d => p d || (r :: l).any (g · d)) ≤
        s.bytesIn fun d => g r d || (p d || l.any (g · d)) :=
      bytesIn_mono fun d hd => by
        simp only [List.any_cons, Bool.or_eq_true] at hd ⊢
        tauto
    rw [List.map_cons, List.sum_cons]
    have ho := hsp.trans (bytesIn_or_le (p := g r))
    omega

variable [DecidableEq F]

lemma bytesIn_create (hf : f ∉ s.files) : (s.create f d).bytesIn p = s.bytesIn p := by
  have hold : ∀ g ∈ s.files, (if (s.create f d).In p g then (s.create f d).bytes g else 0) =
      if s.In p g then s.bytes g else 0 := by
    intro g hg
    have he : g ≠ f := fun h => hf (h ▸ hg)
    have hb : (s.create f d).bytes g = s.bytes g := update_of_ne he _ _
    have hd : (s.create f d).dirs g = s.dirs g := update_of_ne he _ _
    have hin : (s.create f d).In p g ↔ s.In p g := by rw [In, In, hd]
    simp [hin, hb]
  have hnew : (s.create f d).bytes f = 0 := update_self _ _ _
  have hu : (s.create f d).bytesIn p = ∑ g ∈ insert f s.files,
      if (s.create f d).In p g then (s.create f d).bytes g else 0 := rfl
  rw [hu, sum_insert hf, hnew, ite_self, zero_add, sum_congr rfl hold]
  rfl

lemma bytesIn_grow : (s.grow f n).bytesIn p =
    s.bytesIn p + if f ∈ s.files ∧ s.In p f then n else 0 := by
  have hg : ∀ g ∈ s.files, (if (s.grow f n).In p g then (s.grow f n).bytes g else 0) =
      (if s.In p g then s.bytes g else 0) + if f = g then (if s.In p f then n else 0) else 0 := by
    intro g _
    obtain rfl | h := eq_or_ne f g
    · have hb : (s.grow f n).bytes f = s.bytes f + n := update_self _ _ _
      rw [if_pos rfl, hb]
      by_cases hin : s.In p f
      · rw [if_pos hin, if_pos hin, if_pos (show (s.grow f n).In p f from hin)]
      · rw [if_neg hin, if_neg hin, if_neg (show ¬(s.grow f n).In p f from hin)]
    have hb : (s.grow f n).bytes g = s.bytes g := update_of_ne (Ne.symm h) _ _
    rw [if_neg h, hb, add_zero]
    rfl
  have hu : (s.grow f n).bytesIn p = ∑ g ∈ s.files,
      if (s.grow f n).In p g then (s.grow f n).bytes g else 0 := rfl
  rw [hu, sum_congr rfl hg, sum_add_distrib, sum_ite_eq, ite_and]
  rfl

lemma bytesIn_grow_le : (s.grow f n).bytesIn p ≤ s.bytesIn p + n := by
  rw [bytesIn_grow]
  split_ifs
  · exact le_rfl
  · exact Nat.le_add_right _ _

lemma bytesIn_grow_of_not_in (h : ¬s.In p f) : (s.grow f n).bytesIn p = s.bytesIn p := by
  rw [bytesIn_grow, if_neg fun hf => h hf.2, add_zero]

variable [DecidableEq δ]

omit [DecidableEq δ] in
lemma mem_dirs_create {f' : F} {d' : δ} (h : d' ∈ (s.create f d).dirs f') :
    d' ∈ s.dirs f' ∧ f' ≠ f ∨ f' = f ∧ d' = d := by
  have h : d' ∈ update s.dirs f {d} f' := h
  by_cases hf : f' = f
  · rw [hf, update_self, mem_singleton] at h
    exact .inr ⟨hf, h⟩
  rw [update_of_ne hf] at h
  exact .inl ⟨h, hf⟩

omit [DecidableEq δ] in
lemma eq_of_mem_dirs_create {d' : δ} (h : d' ∈ (s.create f d).dirs f) : d' = d :=
  (mem_dirs_create h).elim (fun h => absurd rfl h.2) And.right

lemma mem_dirs_link {f' : F} {d' : δ} (h : d' ∈ (s.link f d).dirs f') :
    d' ∈ s.dirs f' ∨ f' = f ∧ d' = d := by
  have h : d' ∈ update s.dirs f (insert d (s.dirs f)) f' := h
  by_cases hf : f' = f
  · rw [hf, update_self, mem_insert] at h
    exact h.symm.imp (fun h => hf ▸ h) fun h => ⟨hf, h⟩
  rw [update_of_ne hf] at h
  exact .inl h

lemma mem_dirs_unlink {f' : F} {d' : δ} (h : d' ∈ (s.unlink f d).dirs f') : d' ∈ s.dirs f' := by
  have h : d' ∈ update s.dirs f ((s.dirs f).erase d) f' := h
  by_cases hf : f' = f
  · rw [hf, update_self] at h
    exact hf ▸ mem_of_mem_erase h
  · rwa [update_of_ne hf] at h

lemma bytesIn_link_le (h : p d → s.In p f) : (s.link f d).bytesIn p ≤ s.bytesIn p := by
  refine bytesIn_le rfl rfl fun g _ ⟨d', hd', hp⟩ => ?_
  obtain hd' | ⟨rfl, rfl⟩ := mem_dirs_link hd'
  · exact ⟨d', hd', hp⟩
  · exact h hp

lemma bytesIn_unlink_le : (s.unlink f d).bytesIn p ≤ s.bytesIn p :=
  bytesIn_le rfl rfl fun _ _ ⟨d', hd', hp⟩ => ⟨d', mem_dirs_unlink hd', hp⟩

end LinkedFiles

end ThreeTears
