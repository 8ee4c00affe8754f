import ThreeTears.Lib.StepSystem
import Mathlib.Logic.Relation

/-!
# Groups nested in groups

`membership_would_cycle` walks down from the group to be added, a level a read, up to the configured
depth; a longer cycle is not seen.
-/

namespace ThreeTears

open Relation

inductive MemberType
  | user
  | agent
  | group
  deriving DecidableEq

structure GroupMembership (G : Type*) where
  groupId : G
  memberType : MemberType
  memberId : G

/-- `MAX_GROUP_MEMBERSHIP_DEPTH` for a number of nesting levels. -/
def maxGroupMembershipDepth (levels : Nat) : Nat := levels - 1

/-- The rows of `group_members`. -/
abbrev GroupMembers (G : Type*) := List (GroupMembership G)

namespace GroupMembers

variable {G : Type*} {rows rows' : GroupMembers G} {g m x : G} {depth n : Nat} {frontier : List G}
  {edge : G × G}

/-- The one group is a direct member of the other. -/
def Nests (rows : GroupMembers G) (g m : G) : Prop :=
  ∃ r ∈ rows, r.memberType = .group ∧ r.groupId = g ∧ r.memberId = m

def Acyclic (rows : GroupMembers G) : Prop := ∀ g, ¬TransGen rows.Nests g g

lemma acyclic_nil : Acyclic ([] : GroupMembers G) := by
  intro g h
  obtain ⟨_, ⟨_, hr, -⟩, -⟩ := TransGen.head'_iff.1 h
  cases hr

lemma transGen_cons (ho : ¬ReflTransGen rows.Nests m g) {y : G}
    (h : TransGen (Nests (⟨g, .group, m⟩ :: rows)) x y) :
    TransGen rows.Nests x y ∨ ReflTransGen rows.Nests x g ∧ ReflTransGen rows.Nests m y := by
  have hc : ∀ a b, Nests (⟨g, .group, m⟩ :: rows) a b → a = g ∧ b = m ∨ rows.Nests a b := by
    rintro a b ⟨r, hr, hg, rfl, rfl⟩
    rcases List.mem_cons.1 hr with rfl | hr
    · exact .inl ⟨rfl, rfl⟩
    · exact .inr ⟨r, hr, hg, rfl, rfl⟩
  induction h with
  | single he =>
    obtain ⟨rfl, rfl⟩ | he := hc _ _ he
    · exact .inr ⟨.refl, .refl⟩
    · exact .inl (.single he)
  | tail _ he ih =>
    obtain ⟨rfl, rfl⟩ | he := hc _ _ he
    · rcases ih with ih | ⟨-, ih⟩
      · exact .inr ⟨ih.to_reflTransGen, .refl⟩
      · exact absurd ih ho
    · exact ih.imp (fun ih => ih.tail he) fun ih => ⟨ih.1, ih.2.tail he⟩

lemma Nests.cons {r : GroupMembership G} (h : rows.Nests g m) : Nests (r :: rows) g m := by
  obtain ⟨r, hr, h⟩ := h
  exact ⟨r, .tail _ hr, h⟩

lemma Acyclic.of_cons {r : GroupMembership G} (h : Acyclic (r :: rows)) : rows.Acyclic :=
  fun x hx => h x (hx.lift id fun _ _ => Nests.cons)

variable [DecidableEq G]

/-- The groups that are direct members of those of the frontier. -/
def children (rows : GroupMembers G) (frontier : List G) : List G :=
  (rows.filter fun r => r.memberType = .group ∧ r.groupId ∈ frontier).map (·.memberId)

/-- The loop of `membership_would_cycle`. -/
def walk (rows : GroupMembers G) (g : G) : Nat → List G → Bool
  | 0, _ => false
  | n + 1, frontier =>
    if frontier = [] then false
    else if g ∈ rows.children frontier then true
    else rows.walk g n (rows.children frontier)

def membershipWouldCycle (rows : GroupMembers G) (depth : Nat) (g m : G) : Bool :=
  decide (g = m) || rows.walk g depth [m]

/-- Inserts of a group into a group, each right after the check answered that it closes no cycle. -/
def inserts (depth : Nat) : StepSystem (GroupMembers G) (G × G) where
  step rows edge :=
    if rows.membershipWouldCycle depth edge.1 edge.2 then none
    else some (⟨edge.1, .group, edge.2⟩ :: rows)

instance (rows : GroupMembers G) (g m) : Decidable (rows.Nests g m) :=
  inferInstanceAs (Decidable (∃ r ∈ rows, _ ∧ _ ∧ _))

/-- The groups that stand that many levels below those of the frontier. -/
def below (rows : GroupMembers G) : Nat → List G → List G
  | 0, frontier => frontier
  | n + 1, frontier => rows.below n (rows.children frontier)

/-- If the group is nested in its new member at all, it is so within the levels the walk reads. -/
def Seen (depth : Nat) (rows : GroupMembers G) (edge : G × G) : Prop :=
  TransGen rows.Nests edge.2 edge.1 → ∃ level < depth, edge.1 ∈ rows.below (level + 1) [edge.2]

/-- At each of the inserts, into the rows that the ones before it left, the group is `Seen`. -/
def AllSeen (depth : Nat) : GroupMembers G → List (G × G) → Prop
  | _, [] => True
  | rows, edge :: edges =>
    Seen depth rows edge ∧ AllSeen depth (⟨edge.1, .group, edge.2⟩ :: rows) edges

lemma below_nil (n : Nat) : rows.below n [] = [] := by
  induction n with
  | zero => rfl
  | succ n ih =>
    have hc : rows.children [] = [] := by simp [children]
    rw [below, hc, ih]

lemma not_mem_below_of_walk (hw : rows.walk g n frontier = false) {level : Nat} (hl : level < n) :
    g ∉ rows.below (level + 1) frontier := by
  induction n generalizing frontier level with
  | zero => cases hl
  | succ n ih =>
    rw [walk] at hw
    split_ifs at hw with hf hg
    · rw [hf, below_nil]
      exact List.not_mem_nil
    cases level with
    | zero => exact hg
    | succ level => exact ih hw (Nat.lt_of_succ_lt_succ hl)

/-- One insert that the check let pass closes no cycle exactly if it was `Seen`. -/
lemma Acyclic.insert_iff (h : rows.Acyclic)
    (hw : rows.membershipWouldCycle depth edge.1 edge.2 = false) :
    Acyclic (⟨edge.1, .group, edge.2⟩ :: rows) ↔ Seen depth rows edge := by
  rw [membershipWouldCycle, Bool.or_eq_false_iff, decide_eq_false_iff_not] at hw
  constructor
  · intro hac hp
    have hnew : Nests (⟨edge.1, .group, edge.2⟩ :: rows) edge.1 edge.2 :=
      ⟨_, List.mem_cons_self, rfl, rfl, rfl⟩
    exact absurd (.head hnew (hp.lift id fun _ _ => Nests.cons)) (hac edge.1)
  · intro hs x hx
    have ho : ¬ReflTransGen rows.Nests edge.2 edge.1 := by
      intro hp
      rcases reflTransGen_iff_eq_or_transGen.1 hp with he | hp
      · exact hw.1 he
      · obtain ⟨level, hl, hg⟩ := hs hp
        exact not_mem_below_of_walk hw.2 hl hg
    rcases transGen_cons ho hx with hx | ⟨hu, hd⟩
    · exact h x hx
    · exact ho (hd.trans hu)

lemma Acyclic.of_run {edges : List (G × G)} (hrun : (inserts depth).run rows edges = some rows')
    (h : rows'.Acyclic) : rows.Acyclic := by
  induction edges generalizing rows with
  | nil =>
    cases hrun
    exact h
  | cons edge edges ih =>
    obtain ⟨rows₁, hst, hrun⟩ := Option.bind_eq_some_iff.1 hrun
    simp only [inserts] at hst
    split_ifs at hst
    cases hst
    exact (ih hrun).of_cons

/-- Inserts that the check let pass keep the nesting acyclic exactly if none of them adds a group
in which its container is nested deeper than the walk goes. -/
theorem stays_acyclic_iff {edges : List (G × G)} (h : rows.Acyclic)
    (hrun : (inserts depth).run rows edges = some rows') :
    rows'.Acyclic ↔ AllSeen depth rows edges := by
  induction edges generalizing rows with
  | nil =>
    cases hrun
    exact iff_of_true h trivial
  | cons edge edges ih =>
    obtain ⟨rows₁, hst, hrun⟩ := Option.bind_eq_some_iff.1 hrun
    simp only [inserts] at hst
    split_ifs at hst with hw
    cases hst
    rw [Bool.not_eq_true] at hw
    have hone := h.insert_iff hw
    constructor
    · intro hac
      have hne := Acyclic.of_run hrun hac
      exact ⟨hone.1 hne, (ih hne hrun).1 hac⟩
    · rintro ⟨hs, hall⟩
      exact (ih (hone.2 hs) hrun).2 hall

omit [DecidableEq G] in
lemma not_transGen_of_leaf (hn : ∀ r ∈ rows, r.groupId ≠ m) : ¬TransGen rows.Nests m g := by
  intro hp
  obtain ⟨_, ⟨r, hr, -, he, -⟩, -⟩ := TransGen.head'_iff.1 hp
  exact hn r hr he

omit [DecidableEq G] in
lemma not_transGen_of_top (hn : ∀ r ∈ rows, r.memberId ≠ g) : ¬TransGen rows.Nests m g := by
  intro hp
  obtain ⟨_, -, r, hr, -, -, he⟩ := TransGen.tail'_iff.1 hp
  exact hn r hr he

/-- A chain of four groups, and a fifth above it: the chain is deeper than the walk. -/
def deepChain : List (Nat × Nat) := [(0, 1), (1, 2), (2, 3), (9, 0)]

theorem stays_acyclic_iff_deepChain :
    ∃ rows, (inserts 2).run [] deepChain = some rows ∧ rows.Acyclic := by
  have hrun : (inserts 2).run [] deepChain = some
      [⟨9, .group, 0⟩, ⟨2, .group, 3⟩, ⟨1, .group, 2⟩, ⟨0, .group, 1⟩] := rfl
  refine ⟨_, hrun, (stays_acyclic_iff acyclic_nil hrun).2 ?_⟩
  exact ⟨fun hp => absurd hp (not_transGen_of_leaf (by decide)),
    fun hp => absurd hp (not_transGen_of_leaf (by decide)),
    fun hp => absurd hp (not_transGen_of_leaf (by decide)),
    fun hp => absurd hp (not_transGen_of_top (by decide)), trivial⟩

/-- With three levels, four groups are nested in a ring. -/
theorem ring_past_the_walk : ∃ rows : GroupMembers Nat,
    (inserts (maxGroupMembershipDepth 3)).run [] [(0, 1), (1, 2), (2, 3), (3, 0)] = some rows ∧
      ¬rows.Acyclic := by
  refine ⟨_, rfl, fun h => h 0 ?_⟩
  exact .tail (.tail (.tail (.single (b := 1) (by decide)) (c := 2) (by decide)) (c := 3)
    (by decide)) (by decide)

lemma exists_of_mem_children (h : x ∈ rows.children frontier) : ∃ g ∈ frontier, rows.Nests g x := by
  obtain ⟨r, hr, rfl⟩ := List.mem_map.1 h
  obtain ⟨hr, hg⟩ := List.mem_filter.1 hr
  obtain ⟨hg, hf⟩ := of_decide_eq_true hg
  exact ⟨r.groupId, hf, r, hr, hg, rfl, rfl⟩

lemma transGen_of_walk (hw : rows.walk g n frontier) : ∃ x ∈ frontier, TransGen rows.Nests x g := by
  induction n generalizing frontier with
  | zero => cases hw
  | succ n ih =>
    rw [walk] at hw
    split_ifs at hw with hf hg
    · obtain ⟨x, hx, he⟩ := exists_of_mem_children hg
      exact ⟨x, hx, .single he⟩
    · obtain ⟨y, hy, hp⟩ := ih hw
      obtain ⟨x, hx, he⟩ := exists_of_mem_children hy
      exact ⟨x, hx, .head he hp⟩

/-- No insert is refused for nothing: whatever the walk's depth, its row would close a cycle. -/
theorem refused_closes_cycle (h : (inserts depth).step rows edge = none) :
    ¬Acyclic (⟨edge.1, .group, edge.2⟩ :: rows) := by
  have hnew : Nests (⟨edge.1, .group, edge.2⟩ :: rows) edge.1 edge.2 :=
    ⟨_, List.mem_cons_self, rfl, rfl, rfl⟩
  have hw : rows.membershipWouldCycle depth edge.1 edge.2 := by
    by_contra hw
    simp [inserts, hw] at h
  intro hac
  obtain he | hw := Bool.or_eq_true_iff.1 hw
  · obtain ⟨g, m⟩ := edge
    obtain rfl : g = m := of_decide_eq_true he
    exact hac _ (.single hnew)
  · obtain ⟨x, hx, hp⟩ := transGen_of_walk hw
    rw [List.mem_singleton.1 hx] at hp
    exact hac _ (.head hnew (hp.lift id fun _ _ => Nests.cons))

theorem refused_closes_ring :
    ¬Acyclic [⟨2, .group, 0⟩, ⟨0, .group, 1⟩, (⟨1, .group, 2⟩ : GroupMembership Nat)] :=
  refused_closes_cycle (show (inserts 4).step _ (2, 0) = none by decide)

end GroupMembers

end ThreeTears
