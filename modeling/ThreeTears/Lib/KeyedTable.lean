import Mathlib.Order.Lattice
import ThreeTears.Lib.Dict

/-!
# Tables in the order of their key

A table is its rows in the order of a key that no two of them share. It is read a page at a time:
each page asks for the rows past the last key of the page before it, and for one row more than it
keeps, which says whether there is a further page.
-/

@[ext]
structure KeyedTable (K V : Type*) [LinearOrder K] where
  rows : List (K × V)
  sorted : rows.Pairwise fun a b => a.1 < b.1

namespace KeyedTable

open List

variable {K V W : Type*} [LinearOrder K]

def insertRow (k : K) (v : V) : List (K × V) → List (K × V)
  | [] => [(k, v)]
  | e :: l => if k < e.1 then (k, v) :: e :: l else if e.1 = k then (k, v) :: l
      else e :: insertRow k v l

variable {l : List (K × V)}

lemma mem_insertRow {k : K} {v : V} {e : K × V} (h : e ∈ insertRow k v l) : e = (k, v) ∨ e ∈ l := by
  induction l with
  | nil => exact .inl (mem_singleton.1 h)
  | cons e' l ih =>
    simp only [insertRow] at h
    split_ifs at h
    · exact mem_cons.1 h
    · exact (mem_cons.1 h).imp_right (mem_cons_of_mem _)
    obtain rfl | h := mem_cons.1 h
    · exact .inr mem_cons_self
    · exact (ih h).imp_right (mem_cons_of_mem _)

lemma sorted_insertRow (k : K) (v : V)
    (h : l.Pairwise fun a b => a.1 < b.1) : (insertRow k v l).Pairwise fun a b => a.1 < b.1 := by
  induction l with
  | nil => exact pairwise_singleton _ _
  | cons e l ih =>
    obtain ⟨hh, ht⟩ := pairwise_cons.1 h
    simp only [insertRow]
    split_ifs with hlt he
    · refine pairwise_cons.2 ⟨fun e' he' => ?_, h⟩
      obtain rfl | he' := mem_cons.1 he'
      · exact hlt
      · exact hlt.trans (hh e' he')
    · exact pairwise_cons.2 ⟨fun e' he' => he ▸ hh e' he', ht⟩
    refine pairwise_cons.2 ⟨fun e' he' => ?_, ih ht⟩
    obtain rfl | he' := mem_insertRow he'
    · exact lt_of_le_of_ne (not_lt.1 hlt) he
    · exact hh e' he'

lemma lookup_insertRow_self (k : K) (v : V) (l : List (K × V)) :
    Dict.lookup k (insertRow k v l) = some v := by
  induction l with
  | nil => simp [insertRow, Dict.lookup]
  | cons e l ih =>
    simp only [insertRow]
    split_ifs with hlt he
    · simp [Dict.lookup]
    · simp [Dict.lookup]
    · simp [Dict.lookup, he, ih]

lemma lookup_insertRow_of_ne {k k' : K} (hk : k' ≠ k) (v : V) (l : List (K × V)) :
    Dict.lookup k' (insertRow k v l) = Dict.lookup k' l := by
  induction l with
  | nil => simp [insertRow, Dict.lookup, hk.symm]
  | cons e l ih =>
    simp only [insertRow]
    split_ifs with hlt he
    · simp [Dict.lookup, hk.symm]
    · simp [Dict.lookup, he, hk.symm]
    · simp [Dict.lookup, ih]

def empty : KeyedTable K V := ⟨[], List.Pairwise.nil⟩

def get (t : KeyedTable K V) (k : K) : Option V := Dict.lookup k t.rows

def insert (t : KeyedTable K V) (k : K) (v : V) : KeyedTable K V :=
  ⟨insertRow k v t.rows, sorted_insertRow k v t.sorted⟩

/-- The rows of `own`, over those of `base`. -/
def union (own base : KeyedTable K V) : KeyedTable K V :=
  own.rows.foldl (fun t e => t.insert e.1 e.2) base

lemma sorted_filterMap (f : K → V → Option W) (h : l.Pairwise fun a b => a.1 < b.1) :
    (l.filterMap fun e => (f e.1 e.2).map fun w => (e.1, w)).Pairwise fun a b => a.1 < b.1 := by
  refine pairwise_filterMap.2 (h.imp ?_)
  intro a b hlt c hc d hd
  obtain ⟨_, -, rfl⟩ := Option.map_eq_some_iff.1 hc
  obtain ⟨_, -, rfl⟩ := Option.map_eq_some_iff.1 hd
  exact hlt

def filterMap (f : K → V → Option W) (t : KeyedTable K V) : KeyedTable K W :=
  ⟨t.rows.filterMap fun e => (f e.1 e.2).map fun w => (e.1, w), sorted_filterMap f t.sorted⟩

def erase (t : KeyedTable K V) (k : K) : KeyedTable K V :=
  t.filterMap fun k' v => if k' = k then none else some v

variable {t : KeyedTable K V} {k k' : K} {v : V}

@[simp] lemma get_empty (k : K) : (empty : KeyedTable K V).get k = none := rfl

@[simp] lemma get_insert_self (t : KeyedTable K V) (k : K) (v : V) : (t.insert k v).get k =
    some v :=
  lookup_insertRow_self k v t.rows

lemma get_insert_of_ne (hk : k' ≠ k) (t : KeyedTable K V) (v : V) :
    (t.insert k v).get k' = t.get k' := lookup_insertRow_of_ne hk v t.rows

lemma nodup_keys (t : KeyedTable K V) : (t.rows.map Prod.fst).Nodup :=
  pairwise_map.2 (t.sorted.imp ne_of_lt)

lemma get_eq_some_iff : t.get k = some v ↔ (k, v) ∈ t.rows := Dict.lookup_eq_some_iff t.nodup_keys

lemma get_foldl_insert (h : (l.map Prod.fst).Nodup) (t : KeyedTable K V) (k : K) :
    (l.foldl (fun t e => t.insert e.1 e.2) t).get k = (Dict.lookup k l).or (t.get k) := by
  induction l generalizing t with
  | nil => simp [Dict.lookup]
  | cons e l ih =>
    rw [map_cons, nodup_cons] at h
    rw [foldl_cons, ih h.2]
    obtain rfl | he := eq_or_ne e.1 k
    · simp [Dict.lookup, Dict.lookup_eq_none h.1]
    · simp [Dict.lookup, he, get_insert_of_ne (Ne.symm he)]

lemma get_foldl_insert_map (f : K → V) (ks : List K) (t : KeyedTable K V) (k : K) :
    (ks.foldl (fun t k => t.insert k (f k)) t).get k = if k ∈ ks then some (f k) else t.get k := by
  induction ks generalizing t with
  | nil => simp
  | cons k' ks ih =>
    rw [foldl_cons, ih]
    by_cases hmem : k ∈ ks
    · simp [hmem]
    by_cases hk : k = k'
    · simp [hk]
    · simp [hmem, hk, get_insert_of_ne hk]

@[simp] lemma get_union (own base : KeyedTable K V) (k : K) :
    (own.union base).get k = (own.get k).or (base.get k) :=
  get_foldl_insert own.nodup_keys base k

lemma lookup_filterMap (f : K → V → Option W) (k : K) (h : (l.map Prod.fst).Nodup) :
    Dict.lookup k (l.filterMap fun e => (f e.1 e.2).map fun w => (e.1, w)) =
      (Dict.lookup k l).bind (f k) := by
  induction l with
  | nil => rfl
  | cons e l ih =>
    rw [map_cons, nodup_cons] at h
    obtain rfl | he := eq_or_ne e.1 k
    · cases hf : f e.1 e.2 with
      | some w => simp [Dict.lookup, hf]
      | none => simp [Dict.lookup, hf, ih h.2, Dict.lookup_eq_none h.1]
    cases hf : f e.1 e.2 with
    | some w | none => simp [Dict.lookup, he, hf, ih h.2]

@[simp] lemma get_filterMap (f : K → V → Option W) (t : KeyedTable K V) (k : K) :
    (t.filterMap f).get k = (t.get k).bind (f k) := lookup_filterMap f k t.nodup_keys

def ofRows (l : List (K × V)) : KeyedTable K V := l.foldl (fun t e => t.insert e.1 e.2) empty

lemma insertRow_of_lt {k : K} (v : V) (h : ∀ e ∈ l, e.1 < k) : insertRow k v l = l ++ [(k, v)] := by
  induction l with
  | nil => rfl
  | cons e l ih =>
    have he := h e mem_cons_self
    rw [insertRow, if_neg (not_lt.2 (le_of_lt he)), if_neg (ne_of_lt he),
      ih fun e' he' => h e' (mem_cons_of_mem _ he'), cons_append]

lemma rows_foldl_insert (t : KeyedTable K V) (h : (t.rows ++ l).Pairwise fun a b => a.1 < b.1) :
    (l.foldl (fun t e => t.insert e.1 e.2) t).rows = t.rows ++ l := by
  induction l generalizing t with
  | nil => simp
  | cons e l ih =>
    have hlt : ∀ e' ∈ t.rows, e'.1 < e.1 := fun e' he' =>
      (pairwise_append.1 h).2.2 e' he' e mem_cons_self
    have hr : (t.insert e.1 e.2).rows = t.rows ++ [e] := insertRow_of_lt e.2 hlt
    rw [foldl_cons, ih _ (by rw [hr]; simpa using h), hr]
    simp

lemma rows_ofRows (h : l.Pairwise fun a b => a.1 < b.1) : (ofRows l).rows = l := by
  rw [ofRows, rows_foldl_insert _ (by simpa [empty] using h)]
  rfl

@[simp] lemma ofRows_rows (t : KeyedTable K V) : ofRows t.rows = t := by
  ext1
  exact rows_ofRows t.sorted

/-! ### Pages -/

def Past (cursor : Option K) (k : K) : Prop := ∀ c ∈ cursor, c < k
deriving Decidable

lemma lt_of_past {cur : Option K} (h : ¬ Past cur k) (h' : Past cur k') : k < k' := by
  cases cur with
  | none => exact absurd nofun h
  | some c =>
    have hle : k ≤ c := not_lt.1 fun hlt => h fun _ hc => Option.some.inj hc ▸ hlt
    exact hle.trans_lt (h' c rfl)

/-- The rows past the cursor, at most `size` of them, and the last key when more follow. -/
def page (t : KeyedTable K V) (size : Nat) (cursor : Option K) : List (K × V) × Option K :=
  let asked := (t.rows.filter fun e => Past cursor e.1).take (size + 1)
  (asked.take size, if size < asked.length then (asked.take size).getLast?.map Prod.fst else none)

def readUpTo (t : KeyedTable K V) (cursor : Option K) : List (K × V) :=
  t.rows.filter fun e => ¬ Past cursor e.1

@[simp] lemma readUpTo_none (t : KeyedTable K V) : t.readUpTo none = [] := by simp [readUpTo, Past]

lemma filter_le_getLast (h : l.Pairwise fun a b => a.1 < b.1) {n : Nat} {c : K}
    (hc : (l.take n).getLast?.map Prod.fst = some c) : l.filter (fun e => e.1 ≤ c) = l.take n := by
  induction l generalizing n with
  | nil => simp at hc
  | cons e l ih =>
    obtain ⟨hh, ht⟩ := pairwise_cons.1 h
    cases n with
    | zero => simp at hc
    | succ n =>
      rw [take_succ_cons] at hc ⊢
      cases hl : (l.take n).getLast? with
      | none =>
        rw [getLast?_eq_none_iff] at hl
        cases hc
        have hi : l.filter (fun e' => e'.1 ≤ e.1) = [] := by
          refine filter_eq_nil_iff.2 fun e' he' => ?_
          simpa using hh e' he'
        simp [hl, hi]
      | some last =>
        have hmem := mem_of_mem_take (mem_of_getLast? hl)
        have hc' : (l.take n).getLast?.map Prod.fst = some c := by
          rw [getLast?_cons, hl] at hc
          rwa [hl]
        rw [hl] at hc'
        simp only [Option.map_some, Option.some.injEq] at hc'
        have hle : e.1 ≤ c := hc' ▸ le_of_lt (hh last hmem)
        rw [filter_cons_of_pos (by simpa using hle)]
        rw [ih ht (by rw [hl]; simp [hc'])]

variable {size : Nat}

lemma fst_page (hsi : 0 < size) (t : KeyedTable K V) (cur : Option K) :
    (t.page size cur).1 = t.rows.filter fun e =>
      Past cur e.1 ∧ ∀ c ∈ (t.page size cur).2, e.1 ≤ c := by
  set past := t.rows.filter fun e => Past cur e.1 with hpa
  have ho : past.Pairwise fun a b => a.1 < b.1 := t.sorted.filter _
  have hk : (t.page size cur).1 = past.take size := by
    simp only [page, ← hpa, take_take]
    rw [Nat.min_eq_left (Nat.le_succ size)]
  have hsp : (t.rows.filter fun e => Past cur e.1 ∧ ∀ c ∈ (t.page size cur).2, e.1 ≤ c) =
      past.filter fun e => ∀ c ∈ (t.page size cur).2, e.1 ≤ c := by
    rw [hpa, filter_filter]
    refine filter_congr fun e _ => ?_
    simp [Bool.and_comm]
  rw [hk, hsp]
  by_cases hlo : size < past.length
  · have hnext : (t.page size cur).2 = (past.take size).getLast?.map Prod.fst := by
      simp only [page, ← hpa, take_take, length_take]
      rw [if_pos (by omega), Nat.min_eq_left (Nat.le_succ size)]
    cases hl : (past.take size).getLast? with
    | none =>
      have hz := congrArg length (getLast?_eq_none_iff.1 hl)
      rw [length_take, length_nil] at hz
      omega
    | some last =>
      rw [hnext, hl]
      have hi := filter_le_getLast ho (n := size) (c := last.1) (by rw [hl]; rfl)
      simpa using hi.symm
  have hnext : (t.page size cur).2 = none := by
    simp only [page, ← hpa, length_take]
    exact if_neg (by omega)
  rw [hnext, take_of_length_le (not_lt.1 hlo)]
  simp

lemma past_of_page {cur : Option K} {c : K} (h : (t.page size cur).2 = some c) : Past cur c := by
  simp only [page] at h
  split_ifs at h
  obtain ⟨e, he, rfl⟩ := Option.map_eq_some_iff.1 h
  have hmem := mem_of_mem_take (mem_of_mem_take (mem_of_getLast? he))
  exact of_decide_eq_true (mem_filter.1 hmem).2

lemma filter_append_filter (h : l.Pairwise fun a b => a.1 < b.1) (cur : Option K) (q : K → Bool) :
    l.filter (fun e => ¬ Past cur e.1) ++ l.filter (fun e => Past cur e.1 ∧ q e.1) =
      l.filter fun e => ¬ Past cur e.1 ∨ q e.1 := by
  induction l with
  | nil => rfl
  | cons e l ih =>
    obtain ⟨hh, ht⟩ := pairwise_cons.1 h
    by_cases hpa : Past cur e.1
    · have hr : ∀ e' ∈ e :: l, Past cur e'.1 := by
        intro e' he' c hc
        obtain rfl | he' := mem_cons.1 he'
        · exact hpa c hc
        · exact (hpa c hc).trans (hh e' he')
      have hi : (e :: l).filter (fun e => ¬ Past cur e.1) = [] := by
        refine filter_eq_nil_iff.2 fun e' he' => ?_
        simpa using hr e' he'
      rw [hi, nil_append]
      refine filter_congr fun e' he' => ?_
      simp [hr e' he']
    · simpa [filter_cons, hpa] using ih ht

lemma readUpTo_append_page (hsi : 0 < size) (t : KeyedTable K V)
    (cur : Option K) : t.readUpTo cur ++ (t.page size cur).1 = match (t.page size cur).2 with
      | some c => t.readUpTo (some c)
      | none => t.rows := by
  rw [fst_page hsi, readUpTo]
  have hsp := filter_append_filter t.sorted cur
    fun k => decide (∀ c ∈ (t.page size cur).2, k ≤ c)
  simp only [decide_eq_true_eq] at hsp
  rw [hsp]
  cases hnext : (t.page size cur).2 with
  | none => simp
  | some c =>
    refine filter_congr fun e _ => ?_
    have hi : (¬ Past cur e.1 ∨ ∀ c' ∈ some c, e.1 ≤ c') ↔ ¬ Past (some c) e.1 := by
      simp only [Past, Option.mem_def, Option.some.injEq, forall_eq', not_lt]
      refine ⟨?_, .inr⟩
      rintro (hpa | hle)
      · obtain ⟨c', hc', hle⟩ := by simpa using hpa
        exact hle.trans (le_of_lt (past_of_page hnext c' hc'))
      · exact hle
    simp only [hi]

lemma lookup_append_page (hi : 0 < size) (t : KeyedTable K V)
    (cur : Option K) (h : Past cur k → Dict.lookup k l = none) :
    Dict.lookup k (l ++ (t.page size cur).1) =
      if Past cur k then if ∀ c ∈ (t.page size cur).2, k ≤ c then t.get k else none
      else Dict.lookup k l := by
  rw [Dict.lookup_append, fst_page hi]
  rw [Dict.lookup_filter fun k => decide (Past cur k ∧ ∀ c ∈ (t.page size cur).2, k ≤ c)]
  by_cases hpa : Past cur k
  · simp [h hpa, hpa, get]
  · simp [hpa]

end KeyedTable
