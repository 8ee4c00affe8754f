import Mathlib.Algebra.GroupWithZero.Nat
import Mathlib.Data.List.Nodup

/-!
# Insertion-ordered dictionaries

A dictionary is a list of entries with distinct keys. Setting a key that is present keeps its
place, setting a new one appends it.
-/

@[ext] structure Dict (K V : Type*) where
  entries : List (K × V)
  nodup : (entries.map Prod.fst).Nodup

namespace Dict

open List

variable {K V : Type*}

instance [DecidableEq K] [DecidableEq V] : DecidableEq (Dict K V) :=
  fun _ _ => decidable_of_iff' _ Dict.ext_iff

def empty : Dict K V := ⟨[], List.nodup_nil⟩

def keys (d : Dict K V) : List K := d.entries.map Prod.fst

variable [DecidableEq K]

def lookup (k : K) : List (K × V) → Option V
  | [] => none
  | e :: l => if e.1 = k then some e.2 else lookup k l

def assign (k : K) (v : V) : List (K × V) → List (K × V)
  | [] => [(k, v)]
  | e :: l => if e.1 = k then (k, v) :: l else e :: assign k v l

lemma map_fst_assign (k : K) (v : V) (l : List (K × V)) : (assign k v l).map Prod.fst =
      if k ∈ l.map Prod.fst then l.map Prod.fst else l.map Prod.fst ++ [k] := by
  induction l with
  | nil => rfl
  | cons e l ih =>
    simp only [assign, map_cons, mem_cons]
    by_cases he : e.1 = k
    · simp [he]
    have hk : k ≠ e.1 := fun h => he h.symm
    rw [if_neg he, map_cons, ih]
    by_cases hmem : k ∈ l.map Prod.fst
    · simp [hmem]
    · simp [hmem, hk]

def get (d : Dict K V) (k : K) : Option V := lookup k d.entries

def set (d : Dict K V) (k : K) (v : V) : Dict K V where
  entries := assign k v d.entries
  nodup := by
    rw [map_fst_assign]
    by_cases hk : k ∈ d.entries.map Prod.fst
    · rw [if_pos hk]
      exact d.nodup
    rw [if_neg hk]
    exact List.Nodup.append d.nodup (List.nodup_singleton k) (by simpa using hk)

omit [DecidableEq K] in
def filter (d : Dict K V) (p : K → Bool) : Dict K V where
  entries := d.entries.filter fun e => p e.1
  nodup := d.nodup.sublist (List.Sublist.map Prod.fst List.filter_sublist)

def erase (d : Dict K V) (k : K) : Dict K V := d.filter fun k' => k' ≠ k

omit [DecidableEq K] in
def map {W : Type*} (f : V → W) (d : Dict K V) : Dict K W where
  entries := d.entries.map fun e => (e.1, f e.2)
  nodup := by
    rw [List.map_map]
    exact d.nodup

variable {d : Dict K V} {k k' : K} {v : V}

@[simp] lemma get_empty (k : K) : (empty : Dict K V).get k = none := rfl

lemma lookup_assign_self (k : K) (v : V) (l : List (K × V)) : lookup k (assign k v l) = some v := by
  induction l with
  | nil => simp [assign, lookup]
  | cons e l ih =>
    by_cases he : e.1 = k
    · simp [assign, lookup, he]
    · simp [assign, lookup, he, ih]

lemma lookup_assign_of_ne (hk : k' ≠ k) (v : V) (l : List (K × V)) :
    lookup k' (assign k v l) = lookup k' l := by
  induction l with
  | nil => simp [assign, lookup, hk.symm]
  | cons e l ih =>
    by_cases he : e.1 = k
    · simp [assign, lookup, he, hk.symm]
    · simp [assign, lookup, he, ih]

lemma lookup_filter (p : K → Bool) (k : K) (l : List (K × V)) :
    lookup k (l.filter fun e => p e.1) = if p k then lookup k l else none := by
  induction l with
  | nil => simp [lookup]
  | cons e l ih =>
    obtain rfl | he := eq_or_ne e.1 k
    · by_cases hp : p e.1 = true
      · simp [hp, lookup]
      · simpa [filter_cons, hp] using ih
    · by_cases hp : p e.1 = true <;> simpa [filter_cons, hp, lookup, he] using ih

@[simp] lemma get_set_self (d : Dict K V) (k : K) (v : V) : (d.set k v).get k = some v :=
  lookup_assign_self k v d.entries

lemma get_set_of_ne (hk : k' ≠ k) (d : Dict K V) (v : V) : (d.set k v).get k' = d.get k' :=
  lookup_assign_of_ne hk v d.entries

lemma get_filter (d : Dict K V) (p : K → Bool) (k : K) :
    (d.filter p).get k = if p k then d.get k else none := lookup_filter p k d.entries

@[simp] lemma get_erase_self (d : Dict K V) (k : K) : (d.erase k).get k = none := by
  simp [erase, get_filter]

lemma get_erase_of_ne (hk : k' ≠ k) (d : Dict K V) : (d.erase k).get k' = d.get k' := by
  simp [erase, get_filter, hk]

lemma get_map {W : Type*} (f : V → W) (d : Dict K V) (k : K) :
    (d.map f).get k = (d.get k).map f := by
  show lookup k (d.entries.map _) = (lookup k d.entries).map f
  induction d.entries with
  | nil => rfl
  | cons e l ih =>
    by_cases he : e.1 = k
    · simp [lookup, he]
    · simpa [lookup, he] using ih

lemma lookup_eq_some_iff {l : List (K × V)} (h : (l.map Prod.fst).Nodup) :
    lookup k l = some v ↔ (k, v) ∈ l := by
  induction l with
  | nil => simp [lookup]
  | cons e l ih =>
    obtain ⟨k₀, v₀⟩ := e
    rw [map_cons, nodup_cons] at h
    obtain rfl | he := eq_or_ne k₀ k
    · have ho : ∀ x, (k₀, x) ∉ l := fun x hx => h.1 (mem_map.2 ⟨_, hx, rfl⟩)
      simp [lookup, ho, eq_comm]
    · simp [lookup, he, ih h.2, Ne.symm he]

lemma lookup_append (k : K) (l l' : List (K × V)) :
    lookup k (l ++ l') = (lookup k l).or (lookup k l') := by
  induction l with
  | nil => rfl
  | cons e l ih =>
    by_cases he : e.1 = k
    · simp [lookup, he]
    · simp [lookup, he, ih]

lemma lookup_eq_none {l : List (K × V)} (h : k ∉ l.map Prod.fst) : lookup k l = none := by
  induction l with
  | nil => rfl
  | cons e l ih =>
    rw [map_cons, mem_cons, not_or] at h
    simp [lookup, Ne.symm h.1, ih h.2]

lemma get_eq_some_iff : d.get k = some v ↔ (k, v) ∈ d.entries := lookup_eq_some_iff d.nodup

lemma mem_keys : k ∈ d.keys ↔ (d.get k).isSome := by
  simp [keys, Option.isSome_iff_exists, get_eq_some_iff]

lemma length_erase_lt (h : d.get k = some v) : (d.erase k).entries.length < d.entries.length := by
  refine length_filter_lt_length_iff_exists.2 ⟨(k, v), get_eq_some_iff.1 h, ?_⟩
  simp

/-! ### Dictionaries filled from a list -/

variable {W : Type*} {ws : List W}

lemma get_foldl_set {key : W → K} (val : W → V)
    (h : (ws.foldl (fun d w => d.set (key w) (val w)) d).get k = some v) :
    d.get k = some v ∨ ∃ w ∈ ws, key w = k ∧ val w = v := by
  induction ws generalizing d with
  | nil => exact .inl h
  | cons w ws ih =>
    obtain hd | ⟨w', hw', hkey⟩ := ih h
    · obtain rfl | hk := eq_or_ne k (key w)
      · rw [get_set_self] at hd
        exact .inr ⟨w, mem_cons_self, rfl, Option.some.inj hd⟩
      rw [get_set_of_ne hk] at hd
      exact .inl hd
    · exact .inr ⟨w', mem_cons_of_mem _ hw', hkey⟩

lemma isSome_get_foldl_set {key : W → K} (val : W → V)
    (h : (d.get k).isSome ∨ ∃ w ∈ ws, key w = k) :
    ((ws.foldl (fun d w => d.set (key w) (val w)) d).get k).isSome := by
  induction ws generalizing d with
  | nil =>
    obtain h | ⟨w, hw, -⟩ := h
    · exact h
    · cases hw
  | cons w ws ih =>
    apply ih
    obtain rfl | hk := eq_or_ne k (key w)
    · exact .inl (by rw [get_set_self]; rfl)
    rw [get_set_of_ne hk]
    obtain h | ⟨w', hw', hkey⟩ := h
    · exact .inl h
    obtain rfl | hw' := mem_cons.1 hw'
    · exact absurd hkey.symm hk
    · exact .inr ⟨w', hw', hkey⟩

end Dict
