import ThreeTears.Lib.Dict
import Mathlib.Data.Set.Card

/-!
# The store in memory

`_ExpiringEntries` is a dict and a heap that holds a slot for each expiry that was put. A put sweeps
what has expired; a slot whose key was popped or put again is left until it comes up, and past a
slack the heap is built again from the entries.
-/

namespace ThreeTears

open Function List

def heapSlack : Nat := 64

/-- The slots as the heap gives them up; two of one expiry come up in the same sweep. -/
structure ExpiringEntries (K V : Type*) where
  entries : Dict K (V × Int)
  expiries : List (Int × K)

inductive StoreCall (K V : Type*)
  | put (key : K) (value : V) (expiresAt : Int)
  | get (key : K)
  | pop (key : K)

inductive StoreAnswer (V : Type*)
  | stored
  | full (maxEntries : Nat)
  | found (value : Option V)
  deriving DecidableEq

def StoreCall.isPut {K V : Type*} : StoreCall K V → Bool
  | put _ _ _ => true
  | _ => false

variable {K V : Type*} {now t e : Int} {k : K} {v : V} {o : Option (V × Int)} {cap : Option Nat}

/-- What a value with its expiry is at a time. -/
def liveAt (now : Int) (o : Option (V × Int)) : Option (V × Int) := o.filter (now < ·.2)

@[simp] lemma liveAt_none : liveAt now (none : Option (V × Int)) = none := rfl

lemma liveAt_eq_some : liveAt now o = some (v, e) ↔ o = some (v, e) ∧ now < e := by
  simp [liveAt, Option.filter_eq_some_iff]

lemma liveAt_eq_self (h : ∀ v e, o = some (v, e) → now < e) : o = liveAt now o := by
  cases o with
  | none => rfl
  | some x => exact (liveAt_eq_some.2 ⟨rfl, h x.1 x.2 rfl⟩).symm

lemma liveAt_liveAt (h : t ≤ now) : liveAt now (liveAt t o) = liveAt now o := by
  rw [liveAt, liveAt, liveAt, Option.filter_filter]
  congr 1
  funext x
  rw [← Bool.decide_and, decide_eq_decide]
  omega

namespace ExpiringEntries

def bySlot (a b : Int × K) : Prop := a.1 ≤ b.1
deriving Decidable

instance : DecidableRel (bySlot (K := K)) := fun _ _ => inferInstance

instance : Std.Total (bySlot (K := K)) := ⟨fun a b => Int.le_total a.1 b.1⟩

instance : IsTrans (Int × K) bySlot := ⟨fun _ _ _ => Int.le_trans⟩

def start : ExpiringEntries K V := ⟨.empty, []⟩

variable [DecidableEq K]

/-- The loop of `_sweep`. -/
def sweepSlots (now : Int) : List (Int × K) → Dict K (V × Int) → List (Int × K) × Dict K (V × Int)
  | [], entries => ([], entries)
  | slot :: heap, entries =>
    if slot.1 ≤ now then
      sweepSlots now heap
        (if (entries.get slot.2).any (·.2 ≤ now) then entries.erase slot.2 else entries)
    else (slot :: heap, entries)

def sweep (now : Int) (s : ExpiringEntries K V) : ExpiringEntries K V :=
  let (heap, entries) := sweepSlots now s.expiries s.entries
  if 2 * entries.entries.length + heapSlack < heap.length then
    ⟨entries, (entries.entries.map fun e => (e.2.2, e.1)).insertionSort bySlot⟩
  else ⟨entries, heap⟩

/-- A call at the time its clock reads. -/
def call (cap : Option Nat) (now : Int) (s : ExpiringEntries K V) :
    StoreCall K V → StoreAnswer V × ExpiringEntries K V
  | .put key value expiresAt =>
    let s := s.sweep now
    match cap.filter fun n => (s.entries.get key).isNone && n ≤ s.entries.entries.length with
    | some n => (.full n, s)
    | none => (.stored, ⟨s.entries.set key (value, expiresAt),
        s.expiries.orderedInsert bySlot (expiresAt, key)⟩)
  | .get key => (.found ((liveAt now (s.entries.get key)).map Prod.fst), s)
  | .pop key => (.found ((liveAt now (s.entries.get key)).map Prod.fst),
      { s with entries := s.entries.erase key })

/-- The answers to calls, and the state after them. -/
def calls (cap : Option Nat) (cs : List (Int × StoreCall K V)) :
    List (StoreAnswer V) × ExpiringEntries K V :=
  cs.foldl (fun r c => ((r.1 ++ [(call cap c.1 r.2 c.2).1]), (call cap c.1 r.2 c.2).2)) ([], start)

end ExpiringEntries

/-- Each key with the last value put, unless it was popped since. -/
abbrev ExpiringMap (K V : Type*) := K → Option (V × Int)

namespace ExpiringMap

noncomputable def liveCount (now : Int) (m : ExpiringMap K V) : Nat :=
  {k | (liveAt now (m k)).isSome}.ncard

variable [DecidableEq K]

noncomputable def call (cap : Option Nat) (now : Int) (m : ExpiringMap K V) :
    StoreCall K V → StoreAnswer V × ExpiringMap K V
  | .put key value expiresAt =>
    match cap.filter fun n => (liveAt now (m key)).isNone && n ≤ m.liveCount now with
    | some n => (.full n, m)
    | none => (.stored, update m key (some (value, expiresAt)))
  | .get key => (.found ((liveAt now (m key)).map Prod.fst), m)
  | .pop key => (.found ((liveAt now (m key)).map Prod.fst), update m key none)

noncomputable def calls (cap : Option Nat) (cs : List (Int × StoreCall K V)) :
    List (StoreAnswer V) × ExpiringMap K V :=
  cs.foldl (fun r c => (r.1 ++ [(call cap c.1 r.2 c.2).1], (call cap c.1 r.2 c.2).2))
    ([], fun _ => none)

end ExpiringMap

namespace ExpiringEntries

variable [DecidableEq K] {s : ExpiringEntries K V} {m : ExpiringMap K V} {heap : List (Int × K)}
  {entries : Dict K (V × Int)} {c : StoreCall K V} {cs : List (Int × StoreCall K V)}

/-- Every entry has a slot, and what is live is what the map has live. -/
structure Sim (now : Int) (s : ExpiringEntries K V) (m : ExpiringMap K V) : Prop where
  sorted : s.expiries.Pairwise bySlot
  slots : ∀ k v e, s.entries.get k = some (v, e) → (e, k) ∈ s.expiries
  live : ∀ k, liveAt now (s.entries.get k) = liveAt now (m k)

lemma Sim.mono (h : Sim t s m) (ht : t ≤ now) : Sim now s m where
  sorted := h.sorted
  slots := h.slots
  live k := by rw [← liveAt_liveAt ht, h.live, liveAt_liveAt ht]

/-- The loop leaves what is live, and the slots of it. -/
lemma sweepSlots_spec (ho : heap.Pairwise bySlot)
    (hs : ∀ k v e, entries.get k = some (v, e) → e ≤ now → (e, k) ∈ heap) :
    (∀ k, (sweepSlots now heap entries).2.get k = liveAt now (entries.get k)) ∧
      (sweepSlots now heap entries).1.Pairwise bySlot ∧
      ∀ slot ∈ heap, now < slot.1 → slot ∈ (sweepSlots now heap entries).1 := by
  induction heap generalizing entries with
  | nil =>
    refine ⟨fun k => liveAt_eq_self fun v e hk => ?_, .nil, by simp⟩
    by_contra he
    cases hs k v e hk (Int.not_lt.1 he)
  | cons slot heap ih =>
    obtain ⟨hfirst, ho'⟩ := pairwise_cons.1 ho
    have hlate : slot.1 ≤ now → ∀ x ∈ slot :: heap, now < x.1 → x ∈ heap := by
      rintro hle x hx hn
      refine (mem_cons.1 hx).resolve_left ?_
      rintro rfl
      omega
    rw [sweepSlots]
    split_ifs with hl hy
    · have hs' : ∀ k v e, (entries.erase slot.2).get k = some (v, e) → e ≤ now → (e, k) ∈ heap := by
        intro k v e hk he
        obtain rfl | hne := eq_or_ne k slot.2
        · cases (Dict.get_erase_self entries slot.2).symm.trans hk
        rw [Dict.get_erase_of_ne hne] at hk
        exact (mem_cons.1 (hs k v e hk he)).resolve_left fun h => hne (congrArg Prod.snd h)
      obtain ⟨hg, hi, hmem⟩ := ih ho' hs'
      refine ⟨fun k => ?_, hi, fun x hx hn => hmem x (hlate hl x hx hn) hn⟩
      obtain rfl | hk := eq_or_ne k slot.2
      · obtain ⟨x, hx, hle⟩ := (Option.any_eq_true ..).1 hy
        have hgo : liveAt now (some x) = none := by simpa [liveAt] using hle
        rw [hg, Dict.get_erase_self, hx, hgo, liveAt_none]
      · rw [hg, Dict.get_erase_of_ne hk]
    · have hs' : ∀ k v e, entries.get k = some (v, e) → e ≤ now → (e, k) ∈ heap := by
        intro k v e hk he
        refine (mem_cons.1 (hs k v e hk he)).resolve_left fun h => hy ?_
        rw [← h, hk]
        simpa using he
      obtain ⟨hg, hi, hmem⟩ := ih ho' hs'
      exact ⟨hg, hi, fun x hx hn => hmem x (hlate hl x hx hn) hn⟩
    · refine ⟨fun k => liveAt_eq_self fun v e hk => ?_, ho, fun _ h _ => h⟩
      by_contra he
      rcases mem_cons.1 (hs k v e hk (Int.not_lt.1 he)) with hq | hmem
      · have : e = slot.1 := by rw [← hq]
        omega
      · have : slot.1 ≤ e := hfirst _ hmem
        omega

lemma length_entries (h : ∀ k, entries.get k = liveAt now (m k)) :
    entries.entries.length = m.liveCount now := by
  have he : {k | (liveAt now (m k)).isSome} = (entries.keys.toFinset : Set K) := by
    ext k
    simp [← h, Dict.mem_keys]
  have hc : entries.keys.toFinset.card = entries.keys.length :=
    toFinset_card_of_nodup entries.nodup
  rw [ExpiringMap.liveCount, he, Set.ncard_coe_finset, hc, Dict.keys, length_map]

/-- A sweep leaves what the map has live, and a heap of its size. -/
lemma Sim.sweep (h : Sim now s m) : Sim now (s.sweep now) m ∧
    (∀ k, (s.sweep now).entries.get k = liveAt now (m k)) ∧
    (s.sweep now).expiries.length ≤ 2 * m.liveCount now + heapSlack := by
  obtain ⟨ht, hi, hmem⟩ :=
    sweepSlots_spec h.sorted fun k v e hk (_ : e ≤ now) => h.slots k v e hk
  have hg : ∀ k, (sweepSlots now s.expiries s.entries).2.get k = liveAt now (m k) :=
    fun k => (ht k).trans (h.live k)
  have hl := length_entries hg
  unfold ExpiringEntries.sweep
  dsimp only
  split_ifs with hb
  · refine ⟨⟨pairwise_insertionSort _ _, fun k v e hk => ?_, fun k => ?_⟩, hg, ?_⟩
    · rw [mem_insertionSort]
      exact mem_map.2 ⟨(k, v, e), Dict.get_eq_some_iff.1 hk, rfl⟩
    · rw [hg, liveAt_liveAt le_rfl]
    · rw [length_insertionSort, length_map]
      omega
  · refine ⟨⟨hi, fun k v e hk => ?_, fun k => ?_⟩, hg, hl ▸ Nat.not_lt.1 hb⟩
    · obtain ⟨hk, he⟩ := liveAt_eq_some.1 ((ht k).symm.trans hk)
      exact hmem _ (h.slots k v e hk) he
    · rw [hg, liveAt_liveAt le_rfl]

/-- Every call answers as the map does. -/
lemma Sim.call (h : Sim now s m) (c : StoreCall K V) : (s.call cap now c).1 = (m.call cap now c).1 ∧
      Sim now (s.call cap now c).2 (m.call cap now c).2 := by
  cases c with
  | put key va expiresAt =>
    obtain ⟨hi, hg, -⟩ := h.sweep
    simp only [ExpiringEntries.call, ExpiringMap.call, hg, length_entries hg]
    split
    · exact ⟨rfl, hi⟩
    refine ⟨rfl, hi.sorted.orderedInsert _ _, fun k v e hk => ?_, fun k => ?_⟩
    · rw [mem_orderedInsert]
      obtain rfl | he := eq_or_ne k key
      · rw [Dict.get_set_self] at hk
        cases hk
        exact .inl rfl
      · rw [Dict.get_set_of_ne he] at hk
        exact .inr (hi.slots k v e hk)
    · show liveAt now (((s.sweep now).entries.set key (va, expiresAt)).get k) =
        liveAt now (update m key (some (va, expiresAt)) k)
      obtain rfl | he := eq_or_ne k key
      · rw [Dict.get_set_self, update_self]
      · rw [Dict.get_set_of_ne he, update_of_ne he, hi.live]
  | get key => exact ⟨by rw [ExpiringEntries.call, ExpiringMap.call, h.live], h⟩
  | pop key =>
    refine ⟨by rw [ExpiringEntries.call, ExpiringMap.call, h.live], h.sorted, fun k v e hk => ?_,
      fun k => ?_⟩
    · obtain rfl | he := eq_or_ne k key
      · cases (Dict.get_erase_self s.entries k).symm.trans hk
      · exact h.slots k v e ((Dict.get_erase_of_ne he _).symm.trans hk)
    · show liveAt now ((s.entries.erase key).get k) = liveAt now (update m key none k)
      obtain rfl | he := eq_or_ne k key
      · rw [Dict.get_erase_self, update_self]
      · rw [Dict.get_erase_of_ne he, update_of_ne he, h.live]

lemma Sim.put (h : Sim now s m) (cap : Option Nat) (key : K) (va : V) (expiresAt : Int) :
    (s.call cap now (.put key va expiresAt)).2.expiries.length ≤
        2 * m.liveCount now + heapSlack + 1 ∧
      ∀ k v e, (s.call cap now (.put key va expiresAt)).2.entries.get k = some (v, e) →
        e ≤ now → (k, v, e) = (key, va, expiresAt) := by
  obtain ⟨-, hg, hl⟩ := h.sweep
  have hlive : ∀ k v e, (s.sweep now).entries.get k = some (v, e) → now < e :=
    fun k v e hk => (liveAt_eq_some.1 ((hg k).symm.trans hk)).2
  simp only [ExpiringEntries.call]
  split
  · refine ⟨Nat.le_succ_of_le hl, fun k v e hk he => ?_⟩
    exact absurd (hlive k v e hk) (Int.not_lt.2 he)
  · refine ⟨by simpa [orderedInsert_length] using hl, fun k v e hk he => ?_⟩
    obtain rfl | hne := eq_or_ne k key
    · rw [Dict.get_set_self] at hk
      cases hk
      rfl
    · rw [Dict.get_set_of_ne hne] at hk
      exact absurd (hlive k v e hk) (Int.not_lt.2 he)

lemma calls_append (cs : List (Int × StoreCall K V)) (now : Int) (c : StoreCall K V) :
    calls cap (cs ++ [(now, c)]) = ((calls cap cs).1 ++ [(call cap now (calls cap cs).2 c).1],
      (call cap now (calls cap cs).2 c).2) := by
  rw [calls, foldl_append]
  rfl

/-- Over every run the answers are the map's. -/
lemma sim_calls (hc : (cs.map Prod.fst).Pairwise (· ≤ ·)) :
    (calls cap cs).1 = (ExpiringMap.calls cap cs).1 ∧ ∀ now, (∀ c ∈ cs, c.1 ≤ now) →
      Sim now (calls cap cs).2 (ExpiringMap.calls cap cs).2 := by
  induction cs using reverseRecOn with
  | nil => exact ⟨rfl, fun now _ => { sorted := .nil, slots := by rintro k v e ⟨⟩, live _ := rfl }⟩
  | append_singleton cs c ih =>
    rw [map_append, pairwise_append] at hc
    obtain ⟨han, hi⟩ := ih hc.1
    obtain ⟨he, hi⟩ :=
      (hi c.1 fun c' h => hc.2.2 _ (mem_map_of_mem h) _ (mem_singleton_self _)).call c.2
    have hm : ExpiringMap.calls cap (cs ++ [c]) = _ := foldl_append ..
    rw [calls_append, hm]
    exact ⟨congrArg₂ (· ++ [·]) han he, fun now hn => hi.mono (hn c (by simp))⟩

/-- Calls that put nothing leave the heap as it is. -/
lemma expiries_calls (cs) {post : List (Int × StoreCall K V)} (h : ∀ c ∈ post, !c.2.isPut) :
    (calls cap (cs ++ post)).2.expiries = (calls cap cs).2.expiries := by
  induction post using reverseRecOn with
  | nil => rw [append_nil]
  | append_singleton post c ih =>
    rw [← append_assoc, calls_append]
    refine Eq.trans ?_ (ih fun c' hc' => h c' (mem_append_left _ hc'))
    have hu := h c (by simp)
    obtain ⟨now, c⟩ := c
    cases c with
    | put => cases hu
    | get => rfl
    | pop => rfl

/-- The store answers as the map does. A put leaves of what has expired at most what it put itself,
and the heap is as large as what was live at the last sweep allows. -/
theorem store_refines (hc : (cs.map Prod.fst).Pairwise (· ≤ ·)) :
    (calls cap cs).1 = (ExpiringMap.calls cap cs).1 ∧
      ∀ pre now key value expiresAt post, cs = pre ++ (now, .put key value expiresAt) :: post →
        (∀ c ∈ post, !c.2.isPut) → (calls cap cs).2.expiries.length ≤
            2 * (ExpiringMap.calls cap pre).2.liveCount now + heapSlack + 1 ∧
          (post = [] → ∀ k v e, (calls cap cs).2.entries.get k = some (v, e) → e ≤ now →
            (k, v, e) = (key, value, expiresAt)) := by
  refine ⟨(sim_calls hc).1, ?_⟩
  rintro pre now key value expiresAt post rfl ho
  rw [map_append, pairwise_append] at hc
  have hi : Sim now (calls cap pre).2 (ExpiringMap.calls cap pre).2 :=
    (sim_calls hc.1).2 now fun c h => hc.2.2 _ (mem_map_of_mem h) _ (.head _)
  obtain ⟨hl, hheld⟩ := hi.put cap key value expiresAt
  constructor
  · rw [append_cons, expiries_calls _ ho, calls_append]
    exact hl
  · rintro rfl
    rw [calls_append]
    exact hheld

theorem store_refines_full :
    let cs : List (Int × StoreCall Nat Nat) :=
      [(0, .put 0 7 5), (1, .put 1 8 9), (6, .put 1 9 9), (7, .get 0), (7, .pop 1)]
    (calls (some 1) cs).1 = (ExpiringMap.calls (some 1) cs).1 ∧
      (calls (some 1) cs).1 = [.stored, .full 1, .stored, .found none, .found (some 9)] :=
  ⟨(store_refines (by decide)).1, by decide⟩

/-- What is put with an expiry in the past is held after the put. -/
theorem put_expired_held : (calls none [(1, .put 0 7 1)]).1 = [StoreAnswer.stored] ∧
    (calls none [(1, .put 0 7 1)]).2.entries.get 0 = some (7, 1) := by decide

end ExpiringEntries

end ThreeTears
