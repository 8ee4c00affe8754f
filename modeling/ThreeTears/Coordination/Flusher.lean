import ThreeTears.Collections.Flush

/-!
# Closing the periodic flusher

`PeriodicFlusher.aclose` cancels the flush in flight, wherever it stands, and then flushes once
more. A cancelled flush keeps its claims, since a cancellation is not an `Exception`, and the last
flush drains only what is not claimed.
-/

namespace ThreeTears

open List WriteBuffer FlushPc

variable {E V : Type*} [DecidableEq E]

/-- The flusher hands `flush_pending` no parent map. -/
def flusherConfig (field : V → String → Option E) (orderOf : V → Option L2Order)
    (registered : String → Bool) (backend : String → Option Nat) : FlushConfig E V where
  keys := { parentKey := defaultParentKey, field := field }
  orderOf := orderOf
  registered := registered
  backend := backend

/-- The cancelled flush leaves what it did; the statement it awaited may have landed as well. -/
def cancelFlush (cfg : FlushConfig E V) (s : WriteBehind E V) : FlushPc E V → Bool → WriteBehind E V
  | .entity (w :: _), true => if cfg.registered w.1.1 then s.persist w else s
  | .batch _ _ [] took, true => s.commit took
  | _, _ => s

/-- A flush runs on against a store that takes every write, for at most `n` steps. -/
def finishFlush (cfg : FlushConfig E V) :
    Nat → WriteBehind E V × FlushPc E V → WriteBehind E V × FlushPc E V
  | 0, x => x
  | _ + 1, (s, .idle) => (s, .idle)
  | n + 1, (s, pc) => finishFlush cfg n (flushStep cfg s pc .took)

/-- `aclose` while the loop's flush stands at `pc`, in enough steps for the last flush to end. -/
def aclose (cfg : FlushConfig E V) (s : WriteBehind E V) (pc : FlushPc E V) (landed : Bool) :
    WriteBehind E V × FlushPc E V :=
  finishFlush cfg (2 * s.wb.unclaimed.length + 5) (cancelFlush cfg s pc landed, .draining)

/-- The last flush has ended, every value the buffer held is in L3, and no key is left claimed. -/
def LosesNothing (s : WriteBehind E V) (closed : WriteBehind E V × FlushPc E V) : Prop :=
  closed.2 = .idle ∧ (∀ k pw, s.wb.held k = some pw → closed.1.l3 k = some pw.data) ∧
    closed.1.wb.inFlight = ∅

namespace FlushPc

def remaining : FlushPc E V → Nat
  | .idle => 0
  | .draining => 0
  | .batch fresh failed todo _ => todo.length + fresh.length + 2 * failed.length + 4
  | .batchAck todo failed => todo.length + 2 * failed.length + 3
  | .entity todo => 2 * todo.length + 2
  | .acking _ todo => 2 * todo.length + 3
  | .reEnqueuing _ todo => 2 * todo.length + 3
  | .announcing => 1

end FlushPc

variable {cfg : FlushConfig E V} {s : WriteBehind E V} {pc : FlushPc E V}

omit [DecidableEq E] in
lemma remaining_partition (sorted : List (DrainedWrite E V)) :
    (FlushPc.partition cfg sorted).remaining ≤ 2 * sorted.length + 4 := by
  have hl : (sorted.filter fun w => w.2.retries = 0).length +
      (sorted.filter fun w => w.2.retries ≠ 0).length = sorted.length := by
    have := (filter_append_perm (fun w : DrainedWrite E V => decide (w.2.retries = 0))
      sorted).length_eq
    simpa using this
  unfold FlushPc.partition
  simp only
  split_ifs with he
  · simp only [FlushPc.remaining]
    omega
  split
  · simp only [FlushPc.remaining]
    omega
  simp only [FlushPc.remaining, length_append]
  omega

omit [DecidableEq E] in
lemma partition_ne_draining (sorted : List (DrainedWrite E V)) :
    FlushPc.partition cfg sorted ≠ .draining := by
  unfold FlushPc.partition
  simp only
  split_ifs
  · simp
  · split <;> simp

lemma remaining_flushStep (hidle : pc ≠ .idle) (hd : pc ≠ .draining) :
    (flushStep cfg s pc .took).2.remaining + 1 = pc.remaining ∧
      (flushStep cfg s pc .took).2 ≠ .draining := by
  cases pc with
  | idle => exact absurd rfl hidle
  | draining => exact absurd rfl hd
  | batch fresh failed todo took | batchAck todo failed =>
    cases todo with
    | nil =>
      simp only [flushStep, remaining, length_nil, ne_eq, reduceCtorEq, not_false_eq_true, and_true]
      omega
    | cons =>
      simp only [flushStep, remaining, length_cons, ne_eq, reduceCtorEq,
        not_false_eq_true, and_true]
      omega
  | entity todo =>
    cases todo with
    | nil => simp [flushStep, remaining]
    | cons =>
      simp only [flushStep]
      split_ifs
      all_goals
        simp only [remaining, length_cons, ne_eq, reduceCtorEq, not_false_eq_true, and_true]
        omega
  | acking w todo | reEnqueuing w todo | announcing => simp [flushStep, remaining]

lemma finishFlush_spec {Inv : WriteBehind E V → FlushPc E V → Prop}
    (ht : ∀ s pc, pc ≠ .idle → pc ≠ .draining → Inv s pc →
      Inv (flushStep cfg s pc .took).1 (flushStep cfg s pc .took).2)
    {n : Nat} (hn : pc.remaining ≤ n) (hd : pc ≠ .draining) (h : Inv s pc) :
    (finishFlush cfg n (s, pc)).2 = .idle ∧ Inv (finishFlush cfg n (s, pc)).1 .idle := by
  have hz : ∀ pc : FlushPc E V, pc ≠ .draining → pc.remaining = 0 → pc = .idle := by
    intro pc hd h0
    cases pc <;> simp_all [remaining]
  induction n generalizing s pc with
  | zero =>
    obtain rfl := hz pc hd (Nat.le_zero.1 hn)
    exact ⟨rfl, h⟩
  | succ n ih =>
    obtain rfl | hidle := eq_or_ne pc .idle
    · exact ⟨rfl, h⟩
    obtain ⟨hr, hnext⟩ : (flushStep cfg s pc .took).2.remaining + 1 = pc.remaining ∧
        (flushStep cfg s pc .took).2 ≠ .draining := remaining_flushStep hidle hd
    have hle : (flushStep cfg s pc .took).2.remaining ≤ n := by omega
    have hu : finishFlush cfg (n + 1) (s, pc) =
        finishFlush cfg n (flushStep cfg s pc .took) := by
      cases pc <;> first | rfl | exact absurd rfl hidle
    rw [hu]
    exact ih hle hnext (ht s pc hidle hd h)

/-! ### What the last flush leaves -/

omit [DecidableEq E] in
lemma mem_of_key_eq {drained : List (DrainedWrite E V)} (ho : (drained.map Prod.fst).Nodup)
    {w w' : DrainedWrite E V} (hw : w ∈ drained) (hw' : w' ∈ drained) (hkey : w.1 = w'.1) :
    w = w' := inj_on_of_nodup_map ho hw hw' hkey

/-- A flush of `drained`, past its drain, over a store that takes every write; `others` are the keys
other flushes had claimed. -/
structure Closing (drained : List (DrainedWrite E V)) (others : Finset (String × E))
    (s : WriteBehind E V) (pc : FlushPc E V) : Prop where
  persisted : ∀ w ∈ drained, w ∈ pc.toPersist ∨ s.l3 w.1 = some w.2.data
  claimed : ∀ k, k ∈ s.wb.inFlight ↔ k ∈ others ∨ k ∈ pc.toSettle.map Prod.fst
  mem : ∀ w ∈ pc.toSettle, w ∈ drained
  nodup : (pc.toSettle.map Prod.fst).Nodup
  persist_sub : ∀ w ∈ pc.toPersist, w ∈ pc.toSettle
  batch : ∀ fresh failed todo took, pc = .batch fresh failed todo took → took ++ todo = fresh
  noRetry : ∀ w todo, pc ≠ .reEnqueuing w todo

namespace Closing

variable {drained : List (DrainedWrite E V)} {others : Finset (String × E)}

lemma mem_inFlight_ack (hd : ∀ w ∈ drained, w.1 ∉ others) {w : DrainedWrite E V}
    {todo : List (DrainedWrite E V)} (hw : w ∈ drained) (ho : ((w :: todo).map Prod.fst).Nodup)
    (hc : ∀ k, k ∈ s.wb.inFlight ↔ k ∈ others ∨ k ∈ (w :: todo).map Prod.fst)
    (k : String × E) : k ∈ (s.ack w).wb.inFlight ↔ k ∈ others ∨ k ∈ todo.map Prod.fst := by
  rw [map_cons, nodup_cons] at ho
  show k ∈ (s.wb.ack w.1).inFlight ↔ _
  rw [WriteBuffer.mem_inFlight_ack, hc, map_cons, mem_cons]
  constructor
  · rintro ⟨hne, hk | rfl | hk⟩
    · exact .inl hk
    · exact absurd rfl hne
    · exact .inr hk
  rintro (hk | hk)
  · exact ⟨fun he => hd w hw (he ▸ hk), .inl hk⟩
  · exact ⟨fun he => ho.1 (he ▸ hk), .inr (.inr hk)⟩

lemma step (hD : (drained.map Prod.fst).Nodup) (hd : ∀ w ∈ drained, w.1 ∉ others)
    (hr : ∀ w ∈ drained, cfg.registered w.1.1 = true) (hidle : pc ≠ .idle)
    (hdr : pc ≠ .draining) (h : Closing drained others s pc) :
    Closing drained others (flushStep cfg s pc .took).1 (flushStep cfg s pc .took).2 := by
  cases pc with
  | idle => exact absurd rfl hidle
  | draining => exact absurd rfl hdr
  | batch fresh failed todo took =>
    have hb := h.batch fresh failed todo took rfl
    cases todo with
    | cons =>
      refine { h with batch := ?_, noRetry := by simp [flushStep] }
      rintro _ _ _ _ ⟨⟩
      rw [append_assoc]
      exact hb
    | nil =>
      rw [append_nil] at hb
      subst hb
      have hfr : (took.map Prod.fst).Nodup := by
        have := h.nodup
        rw [toSettle, map_append] at this
        exact (nodup_append.1 this).1
      refine ⟨?_, ?_, h.mem, h.nodup, ?_, by simp [flushStep], by simp [flushStep]⟩
      · intro w hw
        by_cases hmem : w ∈ took
        · exact .inr (commit_l3_of_mem hfr hmem)
        obtain hp | hl3 := h.persisted w hw
        · exact .inl ((mem_append.1 hp).resolve_left hmem)
        right
        show (s.commit took).l3 w.1 = _
        rw [commit_l3_of_notMem, hl3]
        intro hkey
        obtain ⟨w', hw', he⟩ := List.mem_map.1 hkey
        have hw'D := h.mem w' (mem_append_left _ hw')
        exact hmem (mem_of_key_eq hD hw'D hw he ▸ hw')
      · intro k
        show k ∈ (s.commit took).wb.inFlight ↔ _
        rw [commit_wb]
        exact h.claimed k
      intro w hw
      exact mem_append_right _ hw
  | batchAck todo =>
    cases todo with
    | nil =>
      exact ⟨h.persisted, h.claimed, h.mem, h.nodup, fun w hw => hw, by simp [flushStep],
        by simp [flushStep]⟩
    | cons w =>
      have hw := h.mem w mem_cons_self
      refine ⟨h.persisted, ?_, fun w' hw' => h.mem w' (mem_cons_of_mem _ hw'), ?_, ?_,
        by simp [flushStep], by simp [flushStep]⟩
      · exact mem_inFlight_ack hd hw h.nodup h.claimed
      · exact (nodup_cons.1 h.nodup).2
      intro w' hw'
      exact mem_append_right _ hw'
  | entity todo =>
    cases todo with
    | nil => exact { h with batch := by simp [flushStep], noRetry := by simp [flushStep] }
    | cons w =>
      have hw := h.mem w mem_cons_self
      simp only [flushStep, hr w hw, if_true]
      refine ⟨?_, h.claimed, h.mem, h.nodup, ?_, by simp, by simp⟩
      · intro w' hw'
        by_cases hkey : w'.1 = w.1
        · rw [mem_of_key_eq hD hw' hw hkey]
          exact .inr (Function.update_self _ _ _)
        obtain hp | hl3 := h.persisted w' hw'
        · obtain rfl | hp := mem_cons.1 hp
          · exact absurd rfl hkey
          · exact .inl hp
        right
        show Function.update s.l3 w.1 _ w'.1 = _
        rw [Function.update_of_ne hkey, hl3]
      intro w' hw'
      exact mem_cons_of_mem _ hw'
  | acking w =>
    have hw := h.mem w mem_cons_self
    refine ⟨h.persisted, ?_, fun w' hw' => h.mem w' (mem_cons_of_mem _ hw'), ?_,
      fun w' hw' => hw', by simp [flushStep], by simp [flushStep]⟩
    · exact mem_inFlight_ack hd hw h.nodup h.claimed
    · exact (nodup_cons.1 h.nodup).2
  | reEnqueuing w todo => exact absurd rfl (h.noRetry w todo)
  | announcing => exact { h with batch := by simp [flushStep], noRetry := by simp [flushStep] }

omit [DecidableEq E] in
lemma partition_perm (sorted : List (DrainedWrite E V)) :
    (sorted.filter (fun w => w.2.retries = 0) ++ sorted.filter fun w => w.2.retries ≠ 0).Perm
      sorted := by
  have := filter_append_perm (fun w : DrainedWrite E V => decide (w.2.retries = 0)) sorted
  simpa using this

omit [DecidableEq E] in
lemma partition {sorted : List (DrainedWrite E V)} (hr : sorted.Perm drained)
    (hD : (drained.map Prod.fst).Nodup)
    (hc : ∀ k, k ∈ s.wb.inFlight ↔ k ∈ others ∨ k ∈ drained.map Prod.fst) :
    Closing drained others s (.partition cfg sorted) := by
  have hl := (partition_perm sorted).trans hr
  have hpe : ∀ w ∈ drained,
      w ∈ sorted.filter (fun w => w.2.retries = 0) ++ sorted.filter fun w => w.2.retries ≠ 0 :=
    fun w hw => hl.mem_iff.2 hw
  have hkeys : ∀ k, k ∈ s.wb.inFlight ↔ k ∈ others ∨
      k ∈ (sorted.filter (fun w => w.2.retries = 0) ++
        sorted.filter fun w => w.2.retries ≠ 0).map Prod.fst := by
    intro k
    rw [hc k, (hl.map Prod.fst).mem_iff]
  have ho := (hl.map Prod.fst).nodup_iff.2 hD
  unfold FlushPc.partition
  simp only
  split_ifs with he
  · rw [List.isEmpty_iff] at he
    rw [he, nil_append] at hpe hkeys ho hl
    exact ⟨fun w hw => .inl (hpe w hw), hkeys, fun w hw => hl.mem_iff.1 hw, ho,
      fun w hw => hw, by simp, by simp⟩
  split
  · refine ⟨fun w hw => .inl (hpe w hw), hkeys, fun w hw => hl.mem_iff.1 hw, ho,
      fun w hw => hw, ?_, by simp⟩
    rintro _ _ _ _ ⟨⟩
    rfl
  exact ⟨fun w hw => .inl (hpe w hw), hkeys, fun w hw => hl.mem_iff.1 hw, ho,
    fun w hw => hw, by simp, by simp⟩

end Closing

lemma nodup_unclaimed (wb : WriteBuffer (String × E) V) : (wb.unclaimed.map Prod.fst).Nodup :=
  wb.rows.nodup.sublist (List.Sublist.map Prod.fst filter_sublist)

lemma toposortPending_perm_of_default (hkeys : cfg.keys.parentKey = defaultParentKey)
    {drained : List (DrainedWrite E V)} (hD : (drained.map Prod.fst).Nodup) :
    (toposortPending cfg.keys drained).Perm drained := by
  refine toposortPending_perm (List.Nodup.map_on ?_ ((List.Nodup.of_map _ hD).filter _))
  have hm : ∀ w : DrainedWrite E V, cfg.keys.hasDeps w = true → w.1.1 = "messages" := by
    intro w hw
    by_contra he
    simp [ParentKeys.hasDeps, hkeys, defaultParentKey, he] at hw
  intro w hw w' hw' hi
  obtain ⟨hw, hd⟩ := mem_filter.1 hw
  obtain ⟨hw', hd'⟩ := mem_filter.1 hw'
  refine mem_of_key_eq hD hw hw' (Prod.ext ?_ hi)
  rw [hm w hd, hm w' hd']

lemma cancelFlush_wb (landed : Bool) : (cancelFlush cfg s pc landed).wb = s.wb := by
  unfold cancelFlush
  split
  · split_ifs
    all_goals rfl
  · exact commit_wb _
  · rfl

lemma aclose_spec (hkeys : cfg.keys.parentKey = defaultParentKey)
    (hr : ∀ k pw, s.wb.held k = some pw → cfg.registered k.1 = true) (landed : Bool) :
    (aclose cfg s pc landed).2 = .idle ∧
      Closing s.wb.unclaimed s.wb.inFlight (aclose cfg s pc landed).1 .idle := by
  have hD := nodup_unclaimed s.wb
  have hi : ∀ w ∈ s.wb.unclaimed, w.1 ∉ s.wb.inFlight := fun w hw => (mem_unclaimed.1 hw).2
  have hregD : ∀ w ∈ s.wb.unclaimed, cfg.registered w.1.1 = true :=
    fun w hw => hr w.1 w.2 (mem_unclaimed.1 hw).1
  have hd : aclose cfg s pc landed = finishFlush cfg (2 * s.wb.unclaimed.length + 4)
      ({ cancelFlush cfg s pc landed with wb := s.wb.drain.1 }, if s.wb.unclaimed.isEmpty then .idle
        else .partition cfg (toposortPending cfg.keys s.wb.unclaimed)) := by
    have hb : (cancelFlush cfg s pc landed).wb = s.wb := cancelFlush_wb landed
    show finishFlush cfg (2 * s.wb.unclaimed.length + 4)
      (flushStep cfg (cancelFlush cfg s pc landed) .draining .took) = _
    rw [flushStep, hb]
    rfl
  have hc : ∀ k, k ∈ s.wb.drain.1.inFlight ↔
      k ∈ s.wb.inFlight ∨ k ∈ s.wb.unclaimed.map Prod.fst := by
    intro k
    rw [mem_inFlight_drain]
    simp
  rw [hd]
  refine finishFlush_spec (fun s pc hidle hd h => h.step hD hi hregD hidle hd) ?_ ?_ ?_
  · split_ifs
    · exact Nat.zero_le _
    apply (remaining_partition _).trans
    rw [(toposortPending_perm_of_default hkeys hD).length_eq]
  · split_ifs
    · simp
    · exact partition_ne_draining _
  split_ifs with he
  · rw [List.isEmpty_iff] at he
    refine ⟨?_, ?_, by simp [toSettle], nodup_nil, by simp [toPersist], by simp, by simp⟩
    · simp [he]
    intro k
    rw [hc, he]
    rfl
  · exact .partition (toposortPending_perm_of_default hkeys hD) hD hc

/-- Closing the flusher while its flush stands anywhere, with a store that takes every later write
and a collection for every table written: nothing is lost, and no key is left claimed, exactly when
no key was claimed at the cancellation. -/
theorem aclose_losesNothing_iff (field : V → String → Option E) (orderOf : V → Option L2Order)
    (registered : String → Bool) (backend : String → Option Nat) (s : WriteBehind E V)
    (pc : FlushPc E V) (landed : Bool)
    (hreg : ∀ k pw, s.wb.held k = some pw → registered k.1 = true) :
    LosesNothing s (aclose (flusherConfig field orderOf registered backend) s pc landed) ↔
      s.wb.inFlight = ∅ := by
  obtain ⟨hidle, h⟩ :
      (aclose (flusherConfig field orderOf registered backend) s pc landed).2 = .idle ∧
        Closing s.wb.unclaimed s.wb.inFlight
          (aclose (flusherConfig field orderOf registered backend) s pc landed).1 .idle :=
    aclose_spec rfl hreg landed
  constructor
  · rintro ⟨-, -, he⟩
    refine Finset.eq_empty_of_forall_notMem fun k hk => ?_
    have hin := (h.claimed k).2 (.inl hk)
    rw [he] at hin
    exact absurd hin (Finset.notMem_empty k)
  intro he
  refine ⟨hidle, ?_, ?_⟩
  · intro k pw hheld
    have hw : (k, pw) ∈ s.wb.unclaimed := mem_unclaimed.2 ⟨hheld, by simp [he]⟩
    rcases h.persisted (k, pw) hw with hp | hl3
    · cases hp
    · exact hl3
  refine Finset.eq_empty_of_forall_notMem fun k hk => ?_
  obtain hk | hk := (h.claimed k).1 hk
  · rw [he] at hk
    exact absurd hk (Finset.notMem_empty k)
  · cases hk

def onePending : WriteBehind Nat Nat where
  wb := (WriteBuffer.opened none).add (fun _ => none) ("states", 1) 7
  l3 _ := none

def plainConfig : FlushConfig Nat Nat :=
  flusherConfig (fun _ _ => none) (fun _ => none) (fun _ => true) (fun _ => none)

/-- Cancelled before its drain, the flush has claimed nothing. -/
theorem aclose_losesNothing_beforeDrain : onePending.wb.held ("states", 1) = some ⟨7, 0⟩ ∧
      LosesNothing onePending (aclose plainConfig onePending .draining false) :=
  ⟨rfl, (aclose_losesNothing_iff (fun _ _ => none) (fun _ => none) (fun _ => true) (fun _ => none)
    onePending .draining false fun _ _ _ => rfl).2 rfl⟩

/-- Cancelled at the statement of its only write, the flush leaves the write claimed: the last
flush passes it by, and the value is in the buffer and not in L3 when `aclose` returns. -/
theorem aclose_loses_claimed :
    (flushStep plainConfig onePending .draining .took).2 = .entity [(("states", 1), ⟨7, 0⟩)] ∧
      (aclose plainConfig (flushStep plainConfig onePending .draining .took).1
        (flushStep plainConfig onePending .draining .took).2 false).1.l3 ("states", 1) = none ∧
      ¬ LosesNothing (flushStep plainConfig onePending .draining .took).1
        (aclose plainConfig (flushStep plainConfig onePending .draining .took).1
          (flushStep plainConfig onePending .draining .took).2 false) := by
  refine ⟨rfl, rfl, ?_⟩
  rintro ⟨-, hl3, -⟩
  exact absurd (hl3 ("states", 1) ⟨7, 0⟩ rfl) nofun

end ThreeTears
