import ThreeTears.Lib.Dict
import Mathlib.Algebra.Order.Ring.Int

/-!
# The index of versioned answers

`VersionedAnswers` indexes what it stored, in rows changed by compare-and-set alone: for each scope
the versions with their orders and a floor, at or below which no version is recorded any more, and
for each version its request digests in shards.
-/

namespace ThreeTears

open Option

@[ext] structure VersionsRow (V : Type*) where
  members : Dict V Int
  floor : Option Int

namespace VersionsRow

variable {V : Type*} [DecidableEq V]

instance : DecidableEq (VersionsRow V) :=
  fun _ _ => decidable_of_iff' _ VersionsRow.ext_iff

def membersOf (row : Option (VersionsRow V)) : Dict V Int := (row.map members).getD .empty

def floorOf (row : Option (VersionsRow V)) : Option Int := row.bind floor

def refuses (row : Option (VersionsRow V)) (order : Int) : Bool :=
  (floorOf row).any fun floor => order ≤ floor

/-- `add_version` of `_recorded`: whether it refused, and the row after it. -/
def addVersion (version : V) (order : Int) (row : Option (VersionsRow V)) :
    Bool × Option (VersionsRow V) :=
  if refuses row order then (true, row)
  else if (membersOf row).get version = some order then (false, row)
  else (false, some ⟨(membersOf row).set version order, floorOf row⟩)

/-- What `_raise_floor` answers. -/
structure Raised (V : Type*) where
  taken : List (V × Int)
  before : Option Int
  after : Int

def Raised.crosses (raised : Raised V) (floor : Int) : Bool :=
  raised.before.all (· < floor) && floor ≤ raised.after

def raiseFloor (order : Int) (row : Option (VersionsRow V)) : Raised V × Option (VersionsRow V) :=
  let after := match floorOf row with
    | none => order - 1
    | some floor => max floor (order - 1)
  (⟨(membersOf row).entries.filter fun e => e.2 < order, floorOf row, after⟩,
    if row.isSome ∧ floorOf row = some after then row else some ⟨membersOf row, some after⟩)

def lowerFloor (raised back : Option Int) (row : Option (VersionsRow V)) : Option (VersionsRow V) :=
  if raised = back then row
  else row.map fun r => if r.floor ≠ raised then r else ⟨r.members, back⟩

/-- `_forget`. -/
def forgetVersion (version : V) (order : Int) (row : Option (VersionsRow V)) :
    Option (VersionsRow V) :=
  row.map fun r =>
    if r.members.get version = some order then ⟨r.members.erase version, r.floor⟩ else r

/-! ### The floor -/

variable {row : Option (VersionsRow V)} {ver ver' : V} {order order' : Int}

omit [DecidableEq V] in
lemma refuses_iff : refuses row order ↔ ∃ floor, floorOf row = some floor ∧ order ≤ floor := by
  cases h : floorOf row <;> simp [refuses, h]

lemma floorOf_addVersion (ver : V) (order : Int) (row : Option (VersionsRow V)) :
    floorOf (addVersion ver order row).2 = floorOf row := by
  simp only [addVersion]
  split_ifs <;> rfl

lemma floorOf_forgetVersion (ver : V) (order : Int) (row : Option (VersionsRow V)) :
    floorOf (forgetVersion ver order row) = floorOf row := by
  cases row with
  | none => rfl
  | some r =>
    simp only [forgetVersion, floorOf, map_some, bind_some]
    split_ifs <;> rfl

omit [DecidableEq V] in
lemma floorOf_raiseFloor (order : Int) (row : Option (VersionsRow V)) :
    floorOf (raiseFloor order row).2 = some (raiseFloor order row).1.after := by
  simp only [raiseFloor]
  split_ifs with h
  · exact h.2
  · rfl

omit [DecidableEq V] in
lemma floorOf_lowerFloor (raised : Int) (back : Option Int) (row : Option (VersionsRow V)) :
    floorOf (lowerFloor (some raised) back row) =
      if floorOf row = some raised then back else floorOf row := by
  cases row with
  | none =>
    simp only [lowerFloor, map_none, ite_self]
    rfl
  | some r =>
    by_cases hb : some raised = back
    · rw [lowerFloor, if_pos hb, ← hb]
      split_ifs with hl
      · exact hl
      · rfl
    · by_cases hl : r.floor = some raised <;> simp [lowerFloor, floorOf, hb, hl]

omit [DecidableEq V] in
lemma Raised.exists_before {raised : Raised V} {flo : Int} (h : ¬ raised.crosses flo)
    (hle : flo ≤ raised.after) : ∃ before, raised.before = some before ∧ flo ≤ before := by
  cases hb : raised.before with
  | none => simp [crosses, hb, hle] at h
  | some before => exact ⟨before, rfl, by simpa [crosses, hb, hle] using h⟩

omit [DecidableEq V] in
lemma Raised.not_crosses {raised : Raised V} {before floor : Int}
    (hb : raised.before = some before) (hle : floor ≤ before) : ¬ raised.crosses floor := by
  simp [crosses, hb, hle]

omit [DecidableEq V] in
lemma le_after (order : Int) (row : Option (VersionsRow V)) :
    order - 1 ≤ (raiseFloor order row).1.after := by
  cases h : floorOf row with
  | none | some flo => simp [raiseFloor, h]

omit [DecidableEq V] in
lemma before_le_after {flo : Int} (h : floorOf row = some flo) (order : Int) :
    flo ≤ (raiseFloor order row).1.after := by
  simp [raiseFloor, h]

@[simp] lemma refuses_addVersion (ver : V) (order order' : Int) (row : Option (VersionsRow V)) :
    refuses (addVersion ver order row).2 order' = refuses row order' := by
  rw [refuses, floorOf_addVersion, refuses]

@[simp] lemma refuses_forgetVersion (ver : V) (order order' : Int) (row : Option (VersionsRow V)) :
    refuses (forgetVersion ver order row) order' = refuses row order' := by
  rw [refuses, floorOf_forgetVersion, refuses]

omit [DecidableEq V] in
lemma refuses_raiseFloor (h : refuses row order') (order : Int) :
    refuses (raiseFloor order row).2 order' := by
  obtain ⟨flo, hl, hle⟩ := refuses_iff.1 h
  exact refuses_iff.2 ⟨_, floorOf_raiseFloor order row, hle.trans (before_le_after hl order)⟩

omit [DecidableEq V] in
lemma refuses_raiseFloor_of_lt (h : order' < order) (row : Option (VersionsRow V)) :
    refuses (raiseFloor order row).2 order' := by
  refine refuses_iff.2 ⟨_, floorOf_raiseFloor order row, le_trans ?_ (le_after order row)⟩
  omega

/-! ### The versions -/

lemma get_addVersion (hr : (addVersion ver order row).1 = false) :
    (membersOf (addVersion ver order row).2).get ver = some order := by
  simp only [addVersion] at hr ⊢
  split_ifs at hr ⊢ with he hg
  · exact hg
  · exact Dict.get_set_self _ _ _

lemma get_addVersion_of_ne (h : ver' ≠ ver) (order : Int) (row : Option (VersionsRow V)) :
    (membersOf (addVersion ver order row).2).get ver' = (membersOf row).get ver' := by
  simp only [addVersion]
  split_ifs
  · rfl
  · rfl
  · exact Dict.get_set_of_ne h _ _

omit [DecidableEq V] in
@[simp] lemma membersOf_raiseFloor (order : Int) (row : Option (VersionsRow V)) :
    membersOf (raiseFloor order row).2 = membersOf row := by
  simp only [raiseFloor]
  split_ifs <;> rfl

lemma mem_taken {e : V × Int} :
    e ∈ (raiseFloor order row).1.taken ↔ (membersOf row).get e.1 = some e.2 ∧ e.2 < order := by
  rw [raiseFloor, List.mem_filter, decide_eq_true_iff, Dict.get_eq_some_iff]

lemma get_forgetVersion_of_ne (h : ver' ≠ ver) (order : Int)
    (row : Option (VersionsRow V)) : (membersOf (forgetVersion ver order row)).get ver' =
      (membersOf row).get ver' := by
  cases row with
  | none => rfl
  | some r =>
    simp only [forgetVersion, membersOf, map_some, getD_some]
    split_ifs
    · exact Dict.get_erase_of_ne h _
    · rfl

lemma get_of_get_forgetVersion
    (h : (membersOf (forgetVersion ver order row)).get ver' = some order') :
    (membersOf row).get ver' = some order' := by
  obtain rfl | he := eq_or_ne ver' ver
  · cases row with
    | none => exact h
    | some r =>
      simp only [forgetVersion, membersOf, map_some, getD_some] at h ⊢
      split_ifs at h
      · rw [Dict.get_erase_self] at h
        cases h
      · exact h
  · rwa [get_forgetVersion_of_ne he] at h

end VersionsRow

/-! ### Shards of digests -/

namespace DigestShard

variable {D : Type*} [DecidableEq D]

def addMember (digest : D) (row : Option (List D)) : Option (List D) :=
  let members := row.getD []
  if digest ∈ members then row else some (members ++ [digest])

def removeMember (digest : D) (row : Option (List D)) : Option (List D) :=
  let members := row.getD []
  if digest ∉ members then row
  else
    let rest := members.filter (· ≠ digest)
    if rest = [] then none else some rest

/-- `drop_handled`: whether the shard is empty after it, and the shard. -/
def dropHandled (handled : List D) (row : Option (List D)) : Bool × Option (List D) :=
  let members := (row.getD []).filter (· ∉ handled)
  (members = [], if row = none ∨ (members.length = (row.getD []).length ∧ members ≠ []) then row
    else if members = [] then none else some members)

variable {row : Option (List D)} {digest digest' : D} {handled : List D}

lemma mem_addMember : digest' ∈ (addMember digest row).getD [] ↔
    digest' = digest ∨ digest' ∈ row.getD [] := by
  simp only [addMember]
  split_ifs with h
  · exact ⟨.inr, fun h' => h'.elim (fun he => he ▸ h) id⟩
  · simp [or_comm]

lemma mem_removeMember : digest' ∈ (removeMember digest row).getD [] ↔
    digest' ≠ digest ∧ digest' ∈ row.getD [] := by
  simp only [removeMember]
  split_ifs with h hr
  · rw [List.filter_eq_nil_iff] at hr
    simp only [getD_none, List.not_mem_nil, false_iff, not_and]
    exact fun he h' => hr _ h' (by simpa using he)
  · simp [and_comm]
  · exact ⟨fun h' => ⟨fun hq => h (hq ▸ h'), h'⟩, And.right⟩

lemma mem_dropHandled : digest' ∈ (dropHandled handled row).2.getD [] ↔
    digest' ∉ handled ∧ digest' ∈ row.getD [] := by
  have hi : digest' ∈ (row.getD []).filter (· ∉ handled) ↔
      digest' ∉ handled ∧ digest' ∈ row.getD [] := by
    rw [List.mem_filter, decide_eq_true_iff, and_comm]
  rw [← hi]
  simp only [dropHandled]
  split_ifs with hk he
  · obtain rfl | ⟨hl, -⟩ := hk
    · simp
    · rw [List.filter_eq_self.2 (List.length_filter_eq_length_iff.1 hl)]
  · rw [he]
    rfl
  · rfl

lemma dropHandled_emptied (h : (dropHandled handled row).1 = true) :
    ∀ digest, digest ∉ (dropHandled handled row).2.getD [] := by
  intro digest hmem
  rw [mem_dropHandled] at hmem
  simp only [dropHandled, decide_eq_true_eq, List.filter_eq_nil_iff] at h
  exact h digest hmem.2 hmem.1

end DigestShard

end ThreeTears
