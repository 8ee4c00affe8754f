import ThreeTears.Collections.WriteBuffer

/-!
# The order in which a flush persists

`_toposort_pending` puts the writes of tables that have a parent column after the writes of their
parents, by Kahn's algorithm over the entity ids of all such tables together. What it does not reach
is appended, so with distinct ids nothing is lost or doubled.
-/

namespace ThreeTears

open List Dict

variable {E V : Type*}

abbrev DrainedWrite (E V : Type*) := (String × E) × PendingWrite V

structure ParentKeys (E V : Type*) where
  parentKey : String → Option String
  field : V → String → Option E

def defaultParentKey (table : String) : Option String :=
  if table = "messages" then some "parent_message_id" else none

namespace ParentKeys

variable (keys : ParentKeys E V)

def hasDeps (w : DrainedWrite E V) : Bool := (keys.parentKey w.1.1).isSome

def parentOf (w : DrainedWrite E V) : Option E := (keys.parentKey w.1.1).bind (keys.field w.2.data)

end ParentKeys

variable [DecidableEq E]

def byId (ws : List (DrainedWrite E V)) : Dict E (DrainedWrite E V) :=
  ws.foldl (fun d w => d.set w.1.2 w) Dict.empty

def link (keys : ParentKeys E V) (ids : Dict E (DrainedWrite E V))
    (acc : Dict E Int × Dict E (List E)) (w : DrainedWrite E V) : Dict E Int × Dict E (List E) :=
  match keys.parentOf w with
  | some parent =>
    if (ids.get parent).isSome then
      (acc.1.set w.1.2 ((acc.1.get w.1.2).getD 0 + 1),
        acc.2.set parent ((acc.2.get parent).getD [] ++ [w.1.2]))
    else acc
  | none => acc

/-- Count one parent of `child` as done, and queue the child after its last one. -/
def visit (acc : Dict E Int × List E) (child : E) : Dict E Int × List E :=
  let degree := (acc.1.get child).getD 0 - 1
  (acc.1.set child degree, if degree = 0 then acc.2 ++ [child] else acc.2)

def kahn (ids : Dict E (DrainedWrite E V)) (children : Dict E (List E)) :
    Nat → Dict E Int → List E → List (DrainedWrite E V) → List (DrainedWrite E V)
  | 0, _, _, ordered => ordered
  | _ + 1, _, [], ordered => ordered
  | n + 1, degrees, eid :: queue, ordered =>
    let next := ((children.get eid).getD []).foldl visit (degrees, queue)
    kahn ids children n next.1 next.2 (ordered ++ (ids.get eid).toList)

def orderedByParent (keys : ParentKeys E V) (ws : List (DrainedWrite E V)) :
    List (DrainedWrite E V) :=
  let ids := byId ws
  let zero : Dict E Int := ws.foldl (fun d w => d.set w.1.2 0) Dict.empty
  let linked := ws.foldl (link keys ids) (zero, Dict.empty)
  let queue := (linked.1.entries.filter fun e => e.2 = 0).map Prod.fst
  kahn ids linked.2 ws.length linked.1 queue []

def toposortPending (keys : ParentKeys E V) (pending : List (DrainedWrite E V)) :
    List (DrainedWrite E V) :=
  let noDeps := pending.filter fun w => !keys.hasDeps w
  let withDeps := pending.filter fun w => keys.hasDeps w
  if withDeps.isEmpty then noDeps
  else
    let ordered := orderedByParent keys withDeps
    -- cycles: what was not reached is appended
    let rest :=
      if ordered.length < withDeps.length then
        withDeps.filter fun w => w.1.2 ∉ ordered.map fun o => o.1.2
      else []
    noDeps ++ (ordered ++ rest)

/-! ### No id is ordered twice -/

/-- The ids ordered or queued are distinct, and none of them has a parent left to wait for. -/
structure KahnInv (ids : Dict E (DrainedWrite E V)) (degrees : Dict E Int) (queue : List E)
    (ordered : List (DrainedWrite E V)) : Prop where
  nodup : (ordered.map (fun w => w.1.2) ++ queue).Nodup
  spent : ∀ e ∈ ordered.map (fun w => w.1.2) ++ queue, (degrees.get e).getD 0 ≤ 0
  pending : ∀ e ∈ queue, (ids.get e).isSome
  known : ∀ w ∈ ordered, ids.get w.1.2 = some w

namespace KahnInv

variable {ids : Dict E (DrainedWrite E V)} {children : Dict E (List E)} {degrees : Dict E Int}
  {queue : List E} {ordered : List (DrainedWrite E V)}

lemma visit (h : KahnInv ids degrees queue ordered) {chi : E} (hc : (ids.get chi).isSome) :
    KahnInv ids (visit (degrees, queue) chi).1 (visit (degrees, queue) chi).2 ordered := by
  simp only [ThreeTears.visit]
  -- an id that is ordered or queued already has degree 0 or less, so it is not queued again
  by_cases hd : (degrees.get chi).getD 0 - 1 = 0
  · have ho : chi ∉ ordered.map (fun w => w.1.2) ++ queue := by
      intro hmem
      have := h.spent chi hmem
      omega
    rw [if_pos hd, hd]
    refine ⟨?_, ?_, ?_, h.known⟩
    · rw [← append_assoc]
      exact List.Nodup.append h.nodup (nodup_singleton chi) (by simpa using ho)
    · intro e he
      rcases eq_or_ne e chi with rfl | hne
      · simp
      rw [get_set_of_ne hne]
      apply h.spent e
      simpa [hne] using he
    intro e he
    rcases mem_append.1 he with he | he
    · exact h.pending e he
    rw [mem_singleton.1 he]
    exact hc
  rw [if_neg hd]
  refine { h with spent := ?_ }
  intro e he
  have hold := h.spent e he
  rcases eq_or_ne e chi with rfl | hne
  · rw [get_set_self, Option.getD_some]
    omega
  · rwa [get_set_of_ne hne]

lemma visits {cs : List E} (h : KahnInv ids degrees queue ordered)
    (hc : ∀ c ∈ cs, (ids.get c).isSome) : KahnInv ids (cs.foldl ThreeTears.visit (degrees, queue)).1
      (cs.foldl ThreeTears.visit (degrees, queue)).2 ordered := by
  induction cs generalizing degrees queue with
  | nil => exact h
  | cons c cs ih =>
    rw [foldl_cons]
    exact ih (h.visit (hc c mem_cons_self)) fun c' hc' => hc c' (mem_cons_of_mem _ hc')

lemma pop {eid : E} {w : DrainedWrite E V} (h : KahnInv ids degrees (eid :: queue) ordered)
    (hw : ids.get eid = some w) (hi : w.1.2 = eid) :
    KahnInv ids degrees queue (ordered ++ [w]) := by
  have hl : (ordered ++ [w]).map (fun w => w.1.2) ++ queue =
      ordered.map (fun w => w.1.2) ++ eid :: queue := by
    simp [hi]
  refine ⟨?_, ?_, ?_, ?_⟩
  · rw [hl]
    exact h.nodup
  · rw [hl]
    exact h.spent
  · intro e he
    exact h.pending e (mem_cons_of_mem _ he)
  intro w' hw'
  rcases mem_append.1 hw' with hw' | hw'
  · exact h.known w' hw'
  rw [mem_singleton.1 hw', hi]
  exact hw

lemma kahn (hi : ∀ e w, ids.get e = some w → w.1.2 = e)
    (hc : ∀ e, ∀ c ∈ (children.get e).getD [], (ids.get c).isSome) (n : Nat)
    (h : KahnInv ids degrees queue ordered) :
    ∃ deg' que', KahnInv ids deg' que' (kahn ids children n degrees queue ordered) := by
  induction n generalizing degrees queue ordered with
  | zero => exact ⟨degrees, queue, h⟩
  | succ n ih =>
    cases queue with
    | nil => exact ⟨degrees, [], h⟩
    | cons eid queue =>
      obtain ⟨w, hw⟩ := Option.isSome_iff_exists.1 (h.pending eid mem_cons_self)
      simp only [ThreeTears.kahn, hw, Option.toList_some]
      exact ih ((h.pop hw (hi eid w hw)).visits (hc eid))

end KahnInv

variable {keys : ParentKeys E V} {ws pending : List (DrainedWrite E V)} {w : DrainedWrite E V}

lemma mem_of_get_byId {e : E} (h : (byId ws).get e = some w) : w ∈ ws ∧ w.1.2 = e := by
  obtain h | ⟨w', hw', hkey, rfl⟩ := get_foldl_set (fun w => w) h
  · cases h
  · exact ⟨hw', hkey⟩

lemma isSome_get_byId (h : w ∈ ws) : ((byId ws).get w.1.2).isSome :=
  isSome_get_foldl_set (fun w => w) (.inr ⟨w, h, rfl⟩)

/-- Every id that is counted or entered as a child is the id of a pending write. -/
structure Linked (ids : Dict E (DrainedWrite E V)) (acc : Dict E Int × Dict E (List E)) :
    Prop where
  counted : ∀ e d, acc.1.get e = some d → (ids.get e).isSome
  children : ∀ e, ∀ c ∈ (acc.2.get e).getD [], (ids.get c).isSome

lemma Linked.link {ids : Dict E (DrainedWrite E V)} {acc : Dict E Int × Dict E (List E)}
    (h : Linked ids acc) (hw : (ids.get w.1.2).isSome) : Linked ids (link keys ids acc w) := by
  unfold ThreeTears.link
  split
  next parent _ =>
    split_ifs
    · constructor
      · intro e d hd
        obtain rfl | he := eq_or_ne e w.1.2
        · exact hw
        rw [get_set_of_ne he] at hd
        exact h.counted e d hd
      intro e c hc
      obtain rfl | he := eq_or_ne e parent
      · rw [get_set_self, Option.getD_some] at hc
        obtain hc | hc := mem_append.1 hc
        · exact h.children e c hc
        rw [mem_singleton.1 hc]
        exact hw
      rw [get_set_of_ne he] at hc
      exact h.children e c hc
    · exact h
  next => exact h

lemma Linked.foldl {ids : Dict E (DrainedWrite E V)} {acc : Dict E Int × Dict E (List E)}
    (h : Linked ids acc) (hw : ∀ w ∈ ws, (ids.get w.1.2).isSome) :
    Linked ids (ws.foldl (ThreeTears.link keys ids) acc) := by
  induction ws generalizing acc with
  | nil => exact h
  | cons w ws ih =>
    rw [foldl_cons]
    exact ih (h.link (hw w mem_cons_self)) fun w' hw' => hw w' (mem_cons_of_mem _ hw')

lemma orderedByParent_spec (keys : ParentKeys E V) (ws : List (DrainedWrite E V)) :
    ((orderedByParent keys ws).map fun w => w.1.2).Nodup ∧
      ∀ w ∈ orderedByParent keys ws, w ∈ ws := by
  have hl : Linked (byId ws) (ws.foldl (link keys (byId ws))
      (ws.foldl (fun d w => d.set w.1.2 0) Dict.empty, Dict.empty)) := by
    refine Linked.foldl ⟨?_, ?_⟩ fun w hw => isSome_get_byId hw
    · intro e d hd
      obtain hd | ⟨w, hw, rfl, -⟩ := get_foldl_set (fun _ => 0) hd
      · cases hd
      · exact isSome_get_byId hw
    intro e c hc
    cases hc
  -- the first queue: the ids without a pending parent
  have ht : ∀ degrees : Dict E Int, (∀ e d, degrees.get e = some d → ((byId ws).get e).isSome) →
      KahnInv (byId ws) degrees ((degrees.entries.filter fun e => e.2 = 0).map Prod.fst) [] := by
    intro degrees hcn
    have hz : ∀ e ∈ (degrees.entries.filter fun e => e.2 = 0).map Prod.fst,
        degrees.get e = some 0 := by
      intro e he
      obtain ⟨⟨e', d⟩, hmem, rfl⟩ := List.mem_map.1 he
      obtain ⟨hmem, hd⟩ := mem_filter.1 hmem
      obtain rfl : d = 0 := by simpa using hd
      exact get_eq_some_iff.2 hmem
    refine ⟨?_, ?_, ?_, ?_⟩
    · exact degrees.nodup.sublist (List.Sublist.map Prod.fst filter_sublist)
    · intro e he
      rw [hz e he]
      exact le_rfl
    · intro e he
      exact hcn e 0 (hz e he)
    intro w hw
    cases hw
  obtain ⟨degrees, queue, h⟩ := KahnInv.kahn (fun e w hw => (mem_of_get_byId hw).2)
    hl.children ws.length (ht _ hl.counted)
  constructor
  · exact (nodup_append.1 h.nodup).1
  intro w hw
  exact (mem_of_get_byId (h.known w hw)).1

lemma mem_of_mem_toposortPending (h : w ∈ toposortPending keys pending) : w ∈ pending := by
  have ho := (orderedByParent_spec keys (pending.filter fun w => keys.hasDeps w)).2 w
  simp only [toposortPending] at h
  split_ifs at h
  · exact (mem_filter.1 h).1
  · obtain h | h := mem_append.1 h
    · exact (mem_filter.1 h).1
    obtain h | h := mem_append.1 h
    · exact (mem_filter.1 (ho h)).1
    · exact (mem_filter.1 (mem_filter.1 h).1).1
  obtain h | h := mem_append.1 h
  · exact (mem_filter.1 h).1
  rw [append_nil] at h
  exact (mem_filter.1 (ho h)).1

/-- When the tables with a parent column share no entity id, the sort rearranges the writes. -/
theorem toposortPending_perm
    (h : ((pending.filter fun w => keys.hasDeps w).map fun w => w.1.2).Nodup) :
    (toposortPending keys pending).Perm pending := by
  have hsp : (pending.filter (fun w => !keys.hasDeps w) ++
      pending.filter fun w => keys.hasDeps w).Perm pending :=
    perm_append_comm.trans (filter_append_perm _ pending)
  simp only [toposortPending]
  generalize pending.filter (fun w => keys.hasDeps w) = withDeps at h hsp ⊢
  obtain ⟨hno, hmem⟩ := orderedByParent_spec keys withDeps
  have hws : withDeps.Nodup := List.Nodup.of_map _ h
  have hr : (orderedByParent keys withDeps).Nodup := List.Nodup.of_map _ hno
  split_ifs with he hl
  · rw [isEmpty_iff.1 he, append_nil] at hsp
    exact hsp
  · refine (List.Perm.append_left _ ?_).trans hsp
    rw [perm_ext_iff_of_nodup _ hws]
    · intro w
      rw [mem_append, mem_filter]
      constructor
      · rintro (hw | ⟨hw, -⟩)
        · exact hmem w hw
        · exact hw
      intro hw
      by_cases hi : w.1.2 ∈ (orderedByParent keys withDeps).map fun o => o.1.2
      · -- the ordered write of this id is this one
        obtain ⟨o, ho, hq⟩ := List.mem_map.1 hi
        rw [← inj_on_of_nodup_map h (hmem o ho) hw hq]
        exact .inl ho
      · exact .inr ⟨hw, by simpa using hi⟩
    apply List.Nodup.append hr (hws.filter _)
    intro w hw hw'
    have hi := (mem_filter.1 hw').2
    rw [decide_eq_true_iff] at hi
    exact hi (List.mem_map.2 ⟨w, hw, rfl⟩)
  refine (List.Perm.append_left _ ?_).trans hsp
  rw [append_nil]
  exact (List.Nodup.subperm hr fun w hw => hmem w hw).perm_of_length_le (not_lt.1 hl)

end ThreeTears
