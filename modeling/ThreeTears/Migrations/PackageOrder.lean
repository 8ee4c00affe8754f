import Mathlib.Order.WellFoundedSet

/-!
# The order of migration packages

`_topological_sort` counts for every package of a scope the dependencies that are still to come,
and takes of those with none left the one with the least name.
-/

namespace ThreeTears

open Function List Relation

inductive MigrationScope
  | platform
  | agent
  deriving DecidableEq

structure PackageMigrations (N : Type*) where
  name : N
  scope : MigrationScope
  dependsOn : List N
  versions : List Int
  versions_nodup : versions.Nodup

/-- The packages in the order of their registration. -/
structure MigrationRunner (N : Type*) where
  packages : List (PackageMigrations N)
  nodup : (packages.map PackageMigrations.name).Nodup

inductive MissingDependencyError (N : Type*)
  | unregistered (name dependency : N)
  | stuck (remaining : List N)

variable {N : Type*} {r : MigrationRunner N} {scope : MigrationScope}

namespace MigrationRunner

open PackageMigrations (name)

def inScope (r : MigrationRunner N) (scope : MigrationScope) : List (PackageMigrations N) :=
  r.packages.filter (·.scope = scope)

/-- Each dependency of the scope, in the order of the loop over them. -/
def edgesOf (r : MigrationRunner N) (scope : MigrationScope) : List (N × N) :=
  (r.inScope scope).flatMap fun p => p.dependsOn.map (p.name, ·)

abbrev namesOf (r : MigrationRunner N) (scope : MigrationScope) : List N :=
  (r.inScope scope).map name

lemma nodup_namesOf : (r.namesOf scope).Nodup := r.nodup.sublist (filter_sublist.map _)

lemma mem_namesOf : ∀ e ∈ r.edgesOf scope, e.1 ∈ r.namesOf scope := by
  intro e he
  obtain ⟨p, hp, hmem⟩ := mem_flatMap.1 he
  obtain ⟨d, -, rfl⟩ := mem_map.1 hmem
  exact mem_map_of_mem hp

lemma notMem_of_nodup {l l' : List N} {n : N} (h : (l ++ n :: l').Nodup) : n ∉ l :=
  fun hn => (nodup_append.1 h).2.2 n hn n (.head _) rfl

variable [LinearOrder N] {names queue done out ds l : List N} {edges es : List (N × N)}
  {deg : N → Int} {n d : N} {fuel : Nat}

/-- The loop that fills `indegree` and `dependents`, over the packages' dependencies. -/
def link (names : List N) : List (N × N) → (N → Int) × (N → List N) →
    Except (MissingDependencyError N) ((N → Int) × (N → List N))
  | [], g => .ok g
  | (name, dep) :: es, g =>
    if !names.contains dep then .error (.unregistered name dep)
    else link names es (update g.1 name (g.1 name + 1), update g.2 dep (g.2 dep ++ [name]))

/-- The loop over the dependents of the package that was taken. -/
def release : List N → (N → Int) × List N → (N → Int) × List N
  | [], s => s
  | d :: ds, (deg, queue) =>
    let deg := update deg d (deg d - 1)
    release ds (deg, if deg d = 0 then (queue ++ [d]).insertionSort (· ≤ ·) else queue)

/-- The packages taken and the counts left, `none` when the fuel runs out. -/
def kahn (dependents : N → List N) : Nat → (N → Int) × List N → Option (List N × (N → Int))
  | 0, _ => none
  | _ + 1, (deg, []) => some ([], deg)
  | fuel + 1, (deg, name :: queue) =>
    (kahn dependents fuel (release (dependents name) (deg, queue))).map fun r => (name :: r.1, r.2)

def topologicalSort (r : MigrationRunner N) (scope : MigrationScope) (fuel : Nat) :
    Except (MissingDependencyError N) (Option (List (PackageMigrations N))) :=
  let inScope := r.inScope scope
  let names := r.namesOf scope
  match link names (r.edgesOf scope) (fun _ => 0, fun _ => []) with
  | .error e => .error e
  | .ok (deg, dependents) =>
    match kahn dependents fuel (deg, (names.filter (deg · = 0)).insertionSort (· ≤ ·)) with
    | none => .ok none
    | some (ordered, deg) =>
      if ordered.length ≠ inScope.length then
        .error (.stuck ((names.filter (0 < deg ·)).insertionSort (· ≤ ·)))
      else .ok (some (ordered.filterMap fun n => inScope.find? (·.name = n)))

def pendingSequence (r : MigrationRunner N) (scope : MigrationScope) (fuel : Nat) :
    Except (MissingDependencyError N) (Option (List (N × Int))) :=
  (r.topologicalSort scope fuel).map (·.map (·.flatMap fun p =>
    (p.versions.insertionSort (· ≤ ·)).map (p.name, ·)))

/-- An order in which each name comes after what it depends on. -/
def IsOrder (names : List N) (edges : List (N × N)) (l : List N) : Prop :=
  l.Perm names ∧ ∀ pre n post, l = pre ++ n :: post → ∀ d, (n, d) ∈ edges → d ∈ pre

/-- The least order by names. -/
def IsLeast (names : List N) (edges : List (N × N)) (l : List N) : Prop :=
  IsOrder names edges l ∧ ∀ l', IsOrder names edges l' → l = l' ∨ List.Lex (· < ·) l l'

abbrev Reaches (edges : List (N × N)) : N → N → Prop := TransGen fun n d => (n, d) ∈ edges

/-- A dependency is not there, or goes round. -/
def Unresolved (names : List N) (edges : List (N × N)) : Prop :=
  (∃ e ∈ edges, e.2 ∉ names) ∨ ∃ n, Reaches edges n n

/-- How many dependencies of a package are still to come. -/
def left (edges : List (N × N)) (done : List N) (n : N) : Nat :=
  edges.countP fun e => e.1 = n ∧ !done.contains e.2

lemma link_spec {g : (N → Int) × (N → List N)} (h : ∀ e ∈ es, e.2 ∈ names) :
    link names es g = .ok (fun n => g.1 n + es.countP (·.1 = n),
      fun d => g.2 d ++ (es.filter (·.2 = d)).map Prod.fst) := by
  induction es generalizing g with
  | nil => simp [link]
  | cons e es ih =>
    obtain ⟨name, dep⟩ := e
    rw [forall_mem_cons] at h
    rw [link, if_neg (by simpa using h.1), ih h.2]
    congr 2
    · funext n
      obtain rfl | hn := eq_or_ne n name
      · simp
        omega
      · simp [hn, Ne.symm hn]
    · funext d
      obtain rfl | hd := eq_or_ne d dep
      · simp
      · simp [hd, Ne.symm hd]

lemma link_error {g : (N → Int) × (N → List N)} (h : ∃ e ∈ es, e.2 ∉ names) :
    ∃ e, link names es g = .error e := by
  induction es generalizing g with
  | nil => simp at h
  | cons e es ih =>
    rw [link]
    split_ifs with he
    · exact ⟨_, rfl⟩
    · obtain ⟨x, hx, hne⟩ := h
      rcases mem_cons.1 hx with rfl | hx
      · simp [hne] at he
      · exact ih ⟨x, hx, hne⟩

lemma release_spec (hg : ∀ n, (ds.count n : Int) ≤ deg n) (hq : queue.Nodup)
    (ho : queue.Pairwise (· ≤ ·)) (hi : ∀ n ∈ ds, n ∉ queue) :
    (∀ n, (release ds (deg, queue)).1 n = deg n - ds.count n) ∧
      (release ds (deg, queue)).2.Nodup ∧ (release ds (deg, queue)).2.Pairwise (· ≤ ·) ∧
      ∀ n, n ∈ (release ds (deg, queue)).2 ↔ n ∈ queue ∨ n ∈ ds ∧ deg n = ds.count n := by
  induction ds generalizing deg queue with
  | nil => simpa [release] using ⟨hq, ho⟩
  | cons d ds ih =>
    rw [forall_mem_cons] at hi
    have hd := hg d
    rw [count_cons_self] at hd
    have hc : ∀ n, n ≠ d → (d :: ds).count n = ds.count n :=
      fun n hn => count_cons_of_ne hn.symm
    have hd' : ∀ n, (ds.count n : Int) ≤ update deg d (deg d - 1) n := by
      intro n
      obtain rfl | hn := eq_or_ne n d
      · rw [update_self]
        omega
      · rw [update_of_ne hn, ← hc n hn]
        exact hg n
    have hu : ∀ n, update deg d (deg d - 1) n - ds.count n = deg n - (d :: ds).count n := by
      intro n
      obtain rfl | hn := eq_or_ne n d
      · rw [update_self, count_cons_self]
        omega
      · rw [update_of_ne hn, hc n hn]
    have hif : ∀ n, update deg d (deg d - 1) n = ds.count n ↔ deg n = (d :: ds).count n := by
      intro n
      have := hu n
      omega
    rw [release, update_self]
    split_ifs with hz
    · have hnd : d ∉ ds := count_eq_zero.1 (by omega)
      have he := perm_insertionSort (· ≤ ·) (queue ++ [d])
      obtain ⟨h1, h2, h3, h4⟩ := ih hd' (he.nodup_iff.2 (nodup_append_comm.1 (hq.cons hi.1)))
        (pairwise_insertionSort _ _) fun n hn hmem => by
          rcases mem_append.1 (he.mem_iff.1 hmem) with h | h
          · exact hi.2 n hn h
          · exact hnd (mem_singleton.1 h ▸ hn)
      refine ⟨fun n => (h1 n).trans (hu n), h2, h3, fun n => (h4 n).trans ?_⟩
      rw [he.mem_iff, ← hif n]
      obtain rfl | hn := eq_or_ne n d
      · simp [count_eq_zero.2 hnd, hz]
      · simp [hn]
    · obtain ⟨h1, h2, h3, h4⟩ := ih hd' hq ho hi.2
      refine ⟨fun n => (h1 n).trans (hu n), h2, h3, fun n => (h4 n).trans ?_⟩
      rw [← hif n, mem_cons]
      obtain rfl | hn := eq_or_ne n d
      · have hmem : update deg n (deg n - 1) n = ds.count n → n ∈ ds := by
          rw [update_self]
          exact fun h => count_pos_iff.1 (by omega)
        tauto
      · simp [hn]

lemma left_eq_zero : left edges done n = 0 ↔ ∀ d, (n, d) ∈ edges → d ∈ done := by
  simp only [left, countP_eq_zero, contains_eq_mem, Bool.not_eq_true', decide_eq_false_iff_not,
    decide_eq_true_eq, not_and, not_not]
  exact ⟨fun h d hd => h _ hd rfl, fun h e he hn => h _ (hn ▸ he)⟩

lemma left_append (h : d ∉ done) : left edges done n =
    left edges (done ++ [d]) n + ((edges.filter (·.2 = d)).map Prod.fst).count n := by
  induction edges with
  | nil => rfl
  | cons e edges ih =>
    simp only [left, countP_cons, filter_cons, contains_eq_mem, mem_append, mem_singleton] at ih ⊢
    grind

/-- Between two turns of the loop: what was taken, what is ready and the counts. -/
structure Inv (names : List N) (edges : List (N × N)) (done : List N) (deg : N → Int)
    (queue : List N) : Prop where
  nodup : (done ++ queue).Nodup
  sorted : queue.Pairwise (· ≤ ·)
  deg_eq : ∀ n, deg n = left edges done n
  mem : ∀ n, n ∈ done ++ queue ↔ n ∈ names ∧ left edges done n = 0
  before : ∀ pre n post, done = pre ++ n :: post → ∀ d, (n, d) ∈ edges → d ∈ pre

lemma inv_start (hd : names.Nodup) : Inv names edges [] (fun n => edges.countP (·.1 = n))
    ((names.filter fun n => (edges.countP (·.1 = n) : Int) = 0).insertionSort (· ≤ ·)) := by
  have hl : ∀ n, left edges [] n = edges.countP (·.1 = n) := by simp [left]
  exact
    { nodup := (perm_insertionSort _ _).nodup_iff.2 (hd.filter _)
      sorted := pairwise_insertionSort _ _
      deg_eq := fun n => by rw [hl]
      mem := fun n => by simp [mem_insertionSort, hl]
      before := by simp }

/-- A turn of the loop. -/
lemma Inv.step (h : Inv names edges done deg (n :: queue)) (he : ∀ e ∈ edges, e.1 ∈ names) :
    Inv names edges (done ++ [n]) (release ((edges.filter (·.2 = n)).map Prod.fst) (deg, queue)).1
      (release ((edges.filter (·.2 = n)).map Prod.fst) (deg, queue)).2 := by
  have hn := notMem_of_nodup h.nodup
  have ht : ∀ m, left edges done m = left edges (done ++ [n]) m +
      ((edges.filter (·.2 = n)).map Prod.fst).count m := fun m => left_append hn
  generalize hds : (edges.filter (·.2 = n)).map Prod.fst = ds at ht ⊢
  have hmem : ∀ m ∈ ds, m ∈ names ∧ m ∉ done ++ n :: queue := by
    intro m hm
    constructor
    · subst hds
      obtain ⟨e, hmem, rfl⟩ := mem_map.1 hm
      exact he e (mem_filter.1 hmem).1
    · intro hmem
      have := ((h.mem m).1 hmem).2
      have := count_pos_iff.2 hm
      have := ht m
      omega
  have hg : ∀ m, (ds.count m : Int) ≤ deg m := by
    intro m
    rw [h.deg_eq, ht m]
    omega
  have hnq := nodup_cons.1 (nodup_append.1 h.nodup).2.1
  obtain ⟨h1, h2, h3, h4⟩ := release_spec hg hnq.2 (pairwise_cons.1 h.sorted).2
    fun m hm hq => (hmem m hm).2 (by simp [hq])
  have hi : done ++ n :: queue = done ++ [n] ++ queue := append_cons ..
  constructor
  case nodup =>
    refine nodup_append.2 ⟨(nodup_append.1 (hi ▸ h.nodup)).1, h2, ?_⟩
    rintro m hm _ hq rfl
    rcases (h4 m).1 hq with hq | ⟨hd, -⟩
    · exact (nodup_append.1 (hi ▸ h.nodup)).2.2 m hm m hq rfl
    · exact (hmem m hd).2 (hi ▸ mem_append_left _ hm)
  case sorted => exact h3
  case deg_eq =>
    intro m
    rw [h1, h.deg_eq, ht m]
    omega
  case mem =>
    -- ready before, or released now
    intro m
    have hl := ht m
    rw [mem_append, h4, ← or_assoc, ← mem_append, ← hi, h.mem, h.deg_eq]
    by_cases hd : m ∈ ds
    · have := count_pos_iff.2 hd
      have := hmem m hd
      grind
    · have := count_eq_zero.2 hd
      grind
  case before =>
    intro pre m post heq d hd
    rcases eq_nil_or_concat' post with rfl | ⟨post, x, rfl⟩
    · obtain ⟨rfl, hm⟩ := append_inj' heq rfl
      cases hm
      exact left_eq_zero.1 ((h.mem n).1 (by simp)).2 d hd
    · rw [← cons_append, ← append_assoc] at heq
      exact h.before pre m post (append_inj' heq rfl).1 d hd

/-- The loop ends with nothing ready, and no order goes before what it took. -/
lemma kahn_spec (h : Inv names edges done deg queue) (he : ∀ e ∈ edges, e.1 ∈ names)
    (hd : names.Nodup) (hu : names.length < fuel + done.length) :
    ∃ out deg', kahn (fun d => (edges.filter (·.2 = d)).map Prod.fst) fuel (deg, queue) =
        some (out, deg') ∧ Inv names edges (done ++ out) deg' [] ∧
      ∀ l, IsOrder names edges (done ++ l) → out = l ∨ List.Lex (· < ·) out l := by
  induction fuel generalizing done deg queue with
  | zero =>
    have hln := (h.nodup.subperm fun n hn => ((h.mem n).1 hn).1).length_le
    rw [length_append] at hln
    omega
  | succ fuel ih =>
    -- the first of an order that is not taken yet is ready
    have hh : ∀ x l, IsOrder names edges (done ++ x :: l) → x ∈ queue := by
      intro x l hl
      have ho := notMem_of_nodup (hl.1.nodup_iff.2 hd)
      have hz : left edges done x = 0 := left_eq_zero.2 (hl.2 done x l rfl)
      exact (mem_append.1 ((h.mem x).2 ⟨hl.1.subset (by simp), hz⟩)).resolve_left ho
    cases queue with
    | nil =>
      refine ⟨[], deg, rfl, by simpa using h, fun l hl => ?_⟩
      cases l with
      | nil => exact .inl rfl
      | cons x l => cases hh x l hl
    | cons n queue =>
      obtain ⟨out, deg', hk, hi, ht⟩ := ih (h.step he) (by simp; omega)
      refine ⟨n :: out, deg', by rw [kahn, hk]; rfl, by simpa using hi, fun l hl => ?_⟩
      cases l with
      | nil =>
        rw [append_nil] at hl
        exact absurd (hl.1.mem_iff.2 ((h.mem n).1 (by simp)).1) (notMem_of_nodup h.nodup)
      | cons x l =>
        rcases mem_cons.1 (hh x l hl) with rfl | hx
        · exact (ht l (by simpa using hl)).imp (congrArg _) .cons
        · refine .inr (.rel (lt_of_le_of_ne ((pairwise_cons.1 h.sorted).1 x hx) ?_))
          rintro rfl
          exact (nodup_cons.1 (nodup_append.1 h.nodup).2.1).1 hx

/-- Along an order dependencies go back. -/
lemma idxOf_lt (hl : IsOrder names edges l) (he : ∀ e ∈ edges, e.1 ∈ names) (hnd : names.Nodup)
    (h : Reaches edges n d) : l.idxOf d < l.idxOf n := by
  have hg : ∀ n d, (n, d) ∈ edges → l.idxOf d < l.idxOf n := by
    intro n d hd
    obtain ⟨pre, post, rfl⟩ := append_of_mem (hl.1.mem_iff.2 (he _ hd))
    have hr := hl.2 pre n post rfl d hd
    have hn := notMem_of_nodup (hl.1.nodup_iff.2 hnd)
    rw [idxOf_append_of_mem hr, idxOf_append_of_notMem hn, idxOf_cons_self]
    exact idxOf_lt_length_of_mem hr
  induction h with
  | single hd => exact hg _ _ hd
  | tail _ hd ih => exact (hg _ _ hd).trans ih

/-- Where each of some names depends on another of them, there is a cycle. -/
lemma exists_cycle (hn : n ∈ l) (h : ∀ m ∈ l, ∃ d ∈ l, (m, d) ∈ edges) :
    ∃ m, Reaches edges m m := by
  by_contra ho
  have : IsStrictOrder N fun a b => Reaches edges b a :=
    { irrefl := fun m hm => ho ⟨m, hm⟩, trans := fun _ _ _ hb hc => hc.trans hb }
  have hw : (l.toFinset : Set N).WellFoundedOn fun a b => Reaches edges b a :=
    l.toFinset.finite_toSet.wellFoundedOn
  refine hw.induction (P := fun _ => False) (by simpa using hn) fun m hm ih => ?_
  obtain ⟨d, hd, he⟩ := h m (by simpa using hm)
  exact ih d (by simpa using hd) (.single he)

lemma find_name {p : PackageMigrations N} (hp : p ∈ r.inScope scope) :
    (r.inScope scope).find? (·.name = p.name) = some p := by
  obtain ⟨q, hq⟩ : ∃ q, (r.inScope scope).find? (·.name = p.name) = some q :=
    Option.isSome_iff_exists.1 (find?_isSome.2 ⟨p, hp, by simp⟩)
  have hm : q.name = p.name := by simpa using find?_some hq
  rw [hq, inj_on_of_nodup_map nodup_namesOf (mem_of_find?_eq_some hq) hp hm]

lemma topologicalSort_eq (hd : ∀ e ∈ r.edgesOf scope, e.2 ∈ r.namesOf scope)
    (hu : (r.inScope scope).length < fuel) :
    ∃ out deg, Inv (r.namesOf scope) (r.edgesOf scope) out deg [] ∧
      (∀ l, IsOrder (r.namesOf scope) (r.edgesOf scope) l → out = l ∨ List.Lex (· < ·) out l) ∧
      r.topologicalSort scope fuel = if out.length ≠ (r.inScope scope).length then
        .error (.stuck (((r.namesOf scope).filter (0 < deg ·)).insertionSort (· ≤ ·)))
      else .ok (some (out.filterMap fun n => (r.inScope scope).find? (·.name = n))) := by
  have hl := link_spec (g := (fun _ => 0, fun _ => [])) hd
  simp only [zero_add, nil_append] at hl
  obtain ⟨out, deg, hk, hi, he⟩ :=
    kahn_spec (inv_start nodup_namesOf) mem_namesOf nodup_namesOf (by simpa using hu)
  refine ⟨out, deg, hi, he, ?_⟩
  simp only [topologicalSort, hl, hk]

lemma filterMap_names {ps : List (PackageMigrations N)} (h : ∀ p ∈ ps, p ∈ r.inScope scope) :
    (ps.map name).filterMap (fun n => (r.inScope scope).find? (·.name = n)) = ps := by
  rw [filterMap_map]
  exact (filterMap_congr fun p hp => find_name (h p hp)).trans filterMap_some

lemma map_filterMap (h : ∀ n ∈ out, n ∈ r.namesOf scope) :
    (out.filterMap fun n => (r.inScope scope).find? (·.name = n)).map name = out := by
  induction out with
  | nil => rfl
  | cons n out ih =>
    rw [forall_mem_cons] at h
    obtain ⟨p, hp, rfl⟩ := mem_map.1 h.1
    rw [filterMap_cons, find_name hp, map_cons, ih h.2]

lemma topologicalSort_spec (r : MigrationRunner N) (scope : MigrationScope)
    (hfu : (r.inScope scope).length < fuel) : (∃ e, r.topologicalSort scope fuel = .error e) ∧
        Unresolved (r.namesOf scope) (r.edgesOf scope) ∨
      (∃ ordered, r.topologicalSort scope fuel = .ok (some ordered) ∧
        ordered.Perm (r.inScope scope) ∧
        IsLeast (r.namesOf scope) (r.edgesOf scope) (ordered.map name)) ∧
        ¬Unresolved (r.namesOf scope) (r.edgesOf scope) := by
  by_cases hde : ∃ e ∈ r.edgesOf scope, e.2 ∉ r.namesOf scope
  · obtain ⟨e, he⟩ := link_error (g := (fun _ => 0, fun _ => [])) hde
    exact .inl ⟨⟨e, by simp only [topologicalSort, he]⟩, .inl hde⟩
  push Not at hde
  obtain ⟨out, deg, hi, ht, hso⟩ := topologicalSort_eq hde hfu
  have hmem : ∀ n, n ∈ out ↔ n ∈ r.namesOf scope ∧ left (r.edgesOf scope) out n = 0 :=
    fun n => by rw [← hi.mem, append_nil]
  have hu := (append_nil out ▸ hi.nodup).subperm fun n hn => ((hmem n).1 hn).1
  rw [hso]
  by_cases hln : out.length = (r.inScope scope).length
  · rw [if_neg (not_not.2 hln)]
    have hr : out.Perm (r.namesOf scope) := hu.perm_of_length_le (by simp [hln])
    have ho : IsOrder (r.namesOf scope) (r.edgesOf scope) out := ⟨hr, hi.before⟩
    have hna := map_filterMap fun n hn => hr.subset hn
    have hps := hr.filterMap fun n => (r.inScope scope).find? (·.name = n)
    rw [filterMap_names fun _ hp => hp] at hps
    refine .inr ⟨⟨_, rfl, hps, ?_⟩, ?_⟩
    · rw [hna]
      exact ⟨ho, ht⟩
    · rintro (⟨e, he, hne⟩ | ⟨n, hn⟩)
      · exact hne (hde e he)
      · exact lt_irrefl _ (idxOf_lt ho mem_namesOf nodup_namesOf hn)
  · -- what was not taken depends on what was not taken
    rw [if_pos hln]
    have hre : ∃ n ∈ r.namesOf scope, n ∉ out := by
      by_contra hno
      push Not at hno
      have hle := (nodup_namesOf.subperm hno).length_le
      have hg := hu.length_le
      rw [length_map] at hle hg
      omega
    obtain ⟨n, hn, hou⟩ := hre
    refine .inl ⟨⟨_, rfl⟩, .inr ?_⟩
    refine exists_cycle (l := (r.namesOf scope).filter (· ∉ out)) (n := n) (by simp [hn, hou]) ?_
    intro m hm
    obtain ⟨hm, hmo⟩ := mem_filter.1 hm
    have hl : ¬left (r.edgesOf scope) out m = 0 := fun hz => by simp [hmem, hm, hz] at hmo
    rw [left_eq_zero] at hl
    push Not at hl
    obtain ⟨d, hd, hdo⟩ := hl
    exact ⟨d, by simp [hde _ hd, hdo], hd⟩

/-- The sort gives the least order, whatever the order of registration, and fails where there is
none; `pending_sequence` lists the versions along it. -/
theorem package_order (r : MigrationRunner N) (scope : MigrationScope)
    (hfuel : (r.inScope scope).length < fuel) : ((∃ e, r.topologicalSort scope fuel = .error e) ↔
        Unresolved (r.namesOf scope) (r.edgesOf scope)) ∧
      ∀ res, r.topologicalSort scope fuel = .ok res →
        ∃ ordered, res = some ordered ∧ ordered.Perm (r.inScope scope) ∧
          IsLeast (r.namesOf scope) (r.edgesOf scope) (ordered.map name) ∧
          (∀ r' : MigrationRunner N, r'.packages.Perm r.packages →
            r'.topologicalSort scope fuel = .ok (some ordered)) ∧
          ∃ vs : PackageMigrations N → List Int,
            (∀ p, (vs p).Perm p.versions ∧ (vs p).Pairwise (· < ·)) ∧ r.pendingSequence scope fuel =
              .ok (some (ordered.flatMap fun p => (vs p).map (p.name, ·))) := by
  obtain ⟨⟨e, he⟩, hb⟩ | ⟨⟨ordered, hs, hp, ho⟩, hg⟩ := topologicalSort_spec r scope hfuel
  · refine ⟨iff_of_true ⟨e, he⟩ hb, fun res hre => ?_⟩
    cases he.symm.trans hre
  refine ⟨iff_of_false (fun ⟨e, he⟩ => by cases hs.symm.trans he) hg, fun res hre => ?_⟩
  cases hs.symm.trans hre
  refine ⟨ordered, rfl, hp, ho, fun r' hr => ?_,
    fun p => p.versions.insertionSort (· ≤ ·), fun p => ⟨perm_insertionSort _ _, ?_⟩, ?_⟩
  · -- the orders of the two registrations are the same ones
    have hi : (r'.inScope scope).Perm (r.inScope scope) := hr.filter _
    have hn : (r'.namesOf scope).Perm (r.namesOf scope) := hi.map _
    have hE : (r'.edgesOf scope).Perm (r.edgesOf scope) := hi.flatMap_right _
    have hif : ∀ l, IsOrder (r'.namesOf scope) (r'.edgesOf scope) l ↔
        IsOrder (r.namesOf scope) (r.edgesOf scope) l := by
      intro l
      simp only [IsOrder, hE.mem_iff]
      exact and_congr_left' ⟨fun h => h.trans hn, fun h => h.trans hn.symm⟩
    obtain ⟨-, hb⟩ | ⟨⟨ordered', hs', hp', ho'⟩, -⟩ :=
      topologicalSort_spec r' scope (hi.length_eq ▸ hfuel)
    · refine absurd (hb.imp ?_ ?_) hg
      · exact fun ⟨e, he, hne⟩ => ⟨e, hE.mem_iff.1 he, fun h => hne (hn.mem_iff.2 h)⟩
      · exact fun ⟨n, hn⟩ => ⟨n, TransGen.mono (fun _ _ h => hE.mem_iff.1 h) _ _ hn⟩
    · have hq : ordered'.map name = ordered.map name := by
        obtain h | h := ho.2 _ ((hif _).1 ho'.1)
        · exact h.symm
        obtain h' | h' := ho'.2 _ ((hif _).2 ho.1)
        · exact h'
        · exact absurd h (asymm h')
      have hc : (ordered'.map name).filterMap
          (fun n => (r.inScope scope).find? (·.name = n)) = ordered' :=
        filterMap_names fun p h => hi.subset (hp'.subset h)
      rw [hq, filterMap_names fun p h => hp.subset h] at hc
      rw [hs', hc]
  · have ht := pairwise_insertionSort (· ≤ ·) p.versions
    have hd := (perm_insertionSort (· ≤ ·) p.versions).nodup_iff.2 p.versions_nodup
    exact (ht.and hd).imp fun h => lt_of_le_of_ne h.1 h.2
  · rw [pendingSequence, hs]
    rfl

theorem package_order_three :
    let r : MigrationRunner Nat :=
      ⟨[⟨0, .agent, [2], [2, 1], by decide⟩, ⟨2, .agent, [], [], by decide⟩,
        ⟨1, .agent, [], [1], by decide⟩, ⟨3, .platform, [3], [], by decide⟩], by decide⟩
    r.pendingSequence .agent 4 = .ok (some [(1, 1), (0, 1), (0, 2)]) ∧
      ∃ ordered, r.topologicalSort .agent 4 = .ok (some ordered) ∧
        IsLeast (r.namesOf .agent) (r.edgesOf .agent) (ordered.map name) := by
  intro r
  obtain ⟨ordered, hr, -, ho, -⟩ := (package_order r .agent (Nat.lt_succ_self 3)).2 _ rfl
  exact ⟨rfl, ordered, congrArg _ hr, ho⟩

end MigrationRunner

end ThreeTears
