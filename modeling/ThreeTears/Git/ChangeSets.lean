import Mathlib.Data.List.Induction
import Mathlib.Data.List.Nodup
import Mathlib.Logic.Function.Basic

/-!
# Change sets

The writes of one commit to a git store are gathered under nested transactions. The set keeps one
change for each row, found by an index of positions. An inner transaction that raises puts the
changes back as they were and the index is made anew.
-/

namespace ThreeTears

inductive OnConflict
  | update
  | ignore
  | raise

/-- A write of the row that `change_key` names, or its delete. -/
structure Change (K R V : Type) where
  key : K
  row : Option R
  cas : Option V
  onConflict : OnConflict

structure ChangeSet (K R V : Type) where
  changes : List (Change K R V)
  index : K → Option ℕ

/-- What the body of a transaction does. An inner transaction ends cleanly, or raises and what it
raised is caught. -/
inductive TxStep (K R V : Type)
  | write (c : Change K R V)
  | inner (body : List (TxStep K R V)) (clean : Bool)

/-- `c` as a later write of the row that `first` wrote. -/
def Change.over {K R V : Type} (c first : Change K R V) : Change K R V :=
  { c with cas := first.cas, onConflict := first.onConflict }

namespace ChangeSet

variable {K R V : Type} [DecidableEq K] {s : ChangeSet K R V}

def indexOf (keys : List K) : K → Option ℕ :=
  keys.zipIdx.foldl (fun index e => Function.update index e.1 (some e.2)) fun _ => none

def add (s : ChangeSet K R V) (c : Change K R V) : ChangeSet K R V :=
  match s.index c.key with
  | none => ⟨s.changes ++ [c], Function.update s.index c.key (some s.changes.length)⟩
  | some i => { s with changes := s.changes.modify i c.over }

def pending (s : ChangeSet K R V) (k : K) : Option (Change K R V) :=
  (s.index k).bind fun i => s.changes[i]?

def restore (saved : List (Change K R V)) : ChangeSet K R V :=
  ⟨saved, indexOf (saved.map Change.key)⟩

mutual

def exec (s : ChangeSet K R V) : TxStep K R V → ChangeSet K R V
  | .write c => s.add c
  -- whatever the body left, the copy made before it comes back
  | .inner body clean => if clean then s.execAll body else restore s.changes

def execAll (s : ChangeSet K R V) : List (TxStep K R V) → ChangeSet K R V
  | [] => s
  | t :: body => (s.exec t).execAll body

end

mutual

/-- The writes of a step that are not taken back. -/
def kept : TxStep K R V → List (Change K R V)
  | .write c => [c]
  | .inner body clean => if clean then keptAll body else []

def keptAll : List (TxStep K R V) → List (Change K R V)
  | [] => []
  | t :: body => kept t ++ keptAll body

end

lemma indexOf_append (keys : List K) (k : K) :
    indexOf (keys ++ [k]) = Function.update (indexOf keys) k (some keys.length) := by
  simp [indexOf, List.zipIdx_append]

lemma indexOf_eq_some {keys : List K} (hk : keys.Nodup) (k : K) (i : ℕ) :
    indexOf keys k = some i ↔ keys[i]? = some k := by
  induction keys using List.reverseRecOn generalizing i with
  | nil => simp [indexOf]
  | append_singleton keys a ih =>
    -- a key found at two positions would have the later one
    have ha : a ∉ keys := by grind
    rw [indexOf_append, Function.update_apply]
    split_ifs with h
    · grind
    · rw [ih (by grind)]
      grind

/-- The index says of each row where its one change is. -/
structure Indexed (s : ChangeSet K R V) : Prop where
  nodup : (s.changes.map Change.key).Nodup
  index_eq : s.index = indexOf (s.changes.map Change.key)

lemma Indexed.index_eq_some (h : s.Indexed) (k : K) (i : ℕ) :
    s.index k = some i ↔ ∃ c, s.changes[i]? = some c ∧ c.key = k := by
  rw [h.index_eq, indexOf_eq_some h.nodup]
  simp

lemma Indexed.restore_changes (h : s.Indexed) : restore s.changes = s := by
  simp [restore, ← h.index_eq]

lemma Indexed.pending_eq_some (h : s.Indexed) (k : K) (c : Change K R V) :
    s.pending k = some c ↔ c ∈ s.changes ∧ c.key = k := by
  have hi := h.index_eq_some k
  simp only [pending, Option.bind_eq_some_iff, hi, List.mem_iff_getElem?]
  grind

lemma Indexed.add (h : s.Indexed) (c : Change K R V) : (s.add c).Indexed := by
  have hc := h.index_eq_some c.key
  unfold ChangeSet.add
  split
  next hn =>
    have hnew : c.key ∉ s.changes.map Change.key := by
      intro hmem
      obtain ⟨c', hc'⟩ := List.mem_map.mp hmem
      simpa [pending, hn] using (h.pending_eq_some _ _).mpr hc'
    constructor
    · simpa [List.nodup_append, h.nodup] using hnew
    · simp [indexOf_append, h.index_eq]
  next i hi =>
    have hkeys : (s.changes.modify i c.over).map Change.key = s.changes.map Change.key :=
      List.ext_getElem? (by grind [Change.over])
    exact ⟨hkeys ▸ h.nodup, hkeys ▸ h.index_eq⟩

lemma Indexed.pending_add (h : s.Indexed) (c : Change K R V) (k : K) : (s.add c).pending k =
    if c.key = k then some ((s.pending k).elim c c.over) else s.pending k := by
  have hc := h.index_eq_some c.key
  have hk := h.index_eq_some k
  unfold ChangeSet.add
  split
  all_goals cases hj : s.index k <;> grind [pending, Function.update_apply]

/-- What the writes of a row come to: the last one, checked as the first one asks. -/
def collapsed (cs : List (Change K R V)) (k : K) : Option (Change K R V) :=
  (cs.filter (·.key = k)).foldl (fun p c => some (p.elim c c.over)) none

lemma Indexed.foldl_add (h : s.Indexed) (cs : List (Change K R V)) :
    (cs.foldl ChangeSet.add s).Indexed := by
  induction cs generalizing s with
  | nil => exact h
  | cons c cs ih => exact ih (h.add c)

lemma Indexed.pending_foldl_add (h : s.Indexed) (cs : List (Change K R V))
    (k : K) : (cs.foldl ChangeSet.add s).pending k =
      (cs.filter (·.key = k)).foldl (fun p c => some (p.elim c c.over)) (s.pending k) := by
  induction cs generalizing s with
  | nil => rfl
  | cons c cs ih =>
    rw [List.foldl_cons, ih (h.add c), h.pending_add]
    split_ifs with hk <;> simp [hk]

mutual

lemma exec_eq {s : ChangeSet K R V} (h : s.Indexed) (t : TxStep K R V) :
    s.exec t = (kept t).foldl add s := by
  match t with
  | .write c => rfl
  | .inner body true => simpa [exec, kept] using execAll_eq h body
  | .inner body false => simpa [exec, kept] using h.restore_changes

lemma execAll_eq {s : ChangeSet K R V} (h : s.Indexed) (body : List (TxStep K R V)) :
    s.execAll body = (keptAll body).foldl add s := by
  match body with
  | [] => rfl
  | t :: body =>
    have ht := exec_eq h t
    rw [execAll, keptAll, List.foldl_append, ← ht]
    exact execAll_eq (ht ▸ h.foldl_add _) body

end

/-- The set when the body of the outermost transaction has run. -/
def run (body : List (TxStep K R V)) : ChangeSet K R V :=
  (restore []).execAll body

/-- However transactions nest and raise, what the outermost one commits is one change for each row
that was written and not taken back: its last such write, checked as its first one asks. A read
inside the set sees the same. -/
theorem changes_run (body : List (TxStep K R V)) :
    ((run body).changes.map Change.key).Nodup ∧
      (∀ c, c ∈ (run body).changes ↔ collapsed (keptAll body) c.key = some c) ∧
      ∀ k, (run body).pending k = collapsed (keptAll body) k := by
  have h0 : (restore [] : ChangeSet K R V).Indexed := ⟨List.nodup_nil, rfl⟩
  have h : (run body).Indexed := by
    rw [run, execAll_eq h0]
    exact h0.foldl_add _
  have hp : ∀ k, (run body).pending k = collapsed (keptAll body) k := by
    intro k
    rw [run, execAll_eq h0, h0.pending_foldl_add]
    rfl
  refine ⟨h.nodup, fun c => ?_, hp⟩
  rw [← hp, h.pending_eq_some]
  simp

end ChangeSet

end ThreeTears
