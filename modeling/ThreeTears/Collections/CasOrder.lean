import ThreeTears.Collections.CasSteps

/-!
# The order of the row in L3

L3 never goes back, and holds the order of every swap that was persisted synchronously, or a later
one. A swap that went to a write buffer is in L3 or covered by the buffer, as long as no flush drops
a write and an acknowledgement takes out nothing later than what its own flush persisted.
-/

namespace ThreeTears

open OrderedCell Option CasTiers

variable {V P ι : Type*} {l3₀ : Option (CasRow V)} {s s' : CasTiers V P} {pc pc' : CasPc V}
  {a : CallAct V P} {p : P} {fl fl' : CasFlush V} {fa : CasFlushAct}

def Reaches (cell : Option (CasRow V)) (row : CasRow V) : Prop :=
  ∃ o, row.order = some o ∧ AtLeast CasRow.order cell o

namespace Reaches

variable {cell : Option (CasRow V)} {row row' : CasRow V}

lemma upsert (h : Reaches cell row) (row' : CasRow V) :
    Reaches (upsert CasRow.order cell row') row := by
  obtain ⟨o, ho, hl⟩ := h
  exact ⟨o, ho, hl.upsert row'⟩

lemma upsert_self (h : row.order.isSome) :
    Reaches (OrderedCell.upsert CasRow.order cell row) row := by
  obtain ⟨o, ho⟩ := isSome_iff_exists.1 h
  exact ⟨o, ho, atLeast_upsert_self ho⟩

lemma trans (h : Reaches cell row) (h' : Reaches (some row) row') : Reaches cell row' := by
  obtain ⟨o, ho, hl⟩ := h
  obtain ⟨o', ho', stored, o'', ht, ho'', hle⟩ := h'
  cases ht
  rw [ho] at ho''
  cases ho''
  exact ⟨o', ho', hl.mono hle⟩

lemma of_not_takes (h : ¬ Takes CasRow.order cell row) (hrow : row.order.isSome) :
    Reaches cell row := by
  obtain ⟨o, ho⟩ := isSome_iff_exists.1 hrow
  exact ⟨o, ho, atLeast_of_not_takes h ho⟩

lemma of_confirms (h : confirmsSuperseded cell row = true) : Reaches cell row := by
  unfold confirmsSuperseded at h
  split at h
  next ours theirs ho ht =>
    obtain ⟨stored, hst, hr⟩ := bind_eq_some_iff.1 ht
    exact ⟨ours, ho, stored, theirs, hst, hr, of_decide_eq_true h⟩
  next => cases h

end Reaches

/-! ### L3 by itself -/

/-- L3 holds the row it held at first or the latest it took, and reaches every synchronous success.
-/
structure CasTiers.Ordered (l3₀ : Option (CasRow V)) (s : CasTiers V P) : Prop where
  latest : s.l3 = l3₀ ∨ ∃ row ∈ s.landed, s.l3 = some row
  landed : ∀ row ∈ s.landed, Reaches s.l3 row
  acked : ∀ row, (row, none) ∈ s.acked → Reaches s.l3 row

namespace CasTiers.Ordered

variable {row : CasRow V} (h : s.Ordered l3₀)
include h

lemma saveOrderedToStore (row : CasRow V) : (s.saveOrderedToStore row).Ordered l3₀ := by
  by_cases ht : Takes CasRow.order s.l3 row
  · have hl3 : (s.saveOrderedToStore row).l3 = some row := if_pos ht
    have hl : (s.saveOrderedToStore row).landed = row :: s.landed := if_pos ht
    constructor
    · rw [hl3, hl]
      exact .inr ⟨row, List.mem_cons_self, rfl⟩
    · rw [hl]
      intro row' hr'
      rcases List.mem_cons.1 hr' with rfl | hr'
      · obtain ⟨o, ho, -⟩ := ht
        exact Reaches.upsert_self (isSome_iff_exists.2 ⟨o, ho⟩)
      · exact (h.landed row' hr').upsert row
    intro row' hr'
    exact (h.acked row' hr').upsert row
  have he : s.saveOrderedToStore row = s := by
    simp [CasTiers.saveOrderedToStore, OrderedCell.upsert, ht]
  rw [he]
  exact h

lemma succeed (hrow : Reaches s.l3 row) : (s.succeed row none).Ordered l3₀ := by
  refine ⟨h.latest, h.landed, ?_⟩
  intro row' hr'
  rcases List.mem_cons.1 hr' with he | hr'
  · cases he
    exact hrow
  · exact h.acked row' hr'

lemma succeed_deferred (row : CasRow V) (p : P) : (s.succeed row (some p)).Ordered l3₀ := by
  refine ⟨h.latest, h.landed, ?_⟩
  intro row' hr'
  rcases List.mem_cons.1 hr' with he | hr'
  · cases he
  · exact h.acked row' hr'

end CasTiers.Ordered

/-- The row of a call is stamped once its swap is ordered, and in L3 once L3 took it. -/
def CallOrdered (l3 : Option (CasRow V)) : CasPc V → Prop
  | .persisting row _ => row.order.isSome
  | .bumping row _ => Reaches l3 row
  | _ => True

section Steps

variable [DecidableEq P]

omit [DecidableEq P] in
lemma CallOrdered.upsert (h : CallOrdered s.l3 pc) (row : CasRow V) :
    CallOrdered (s.saveOrderedToStore row).l3 pc := by
  cases pc with
  | bumping => exact Reaches.upsert h row
  | _ => exact h

lemma CallMoves.l3 (hm : CallMoves s pc a s' pc') :
    s'.l3 = s.l3 ∨ ∃ row, s'.l3 = (s.saveOrderedToStore row).l3 := by
  cases hm with
  | took | declined | unanswered => exact .inr ⟨_, rfl⟩
  | _ => exact .inl rfl

lemma CallMoves.keeps_order (hm : CallMoves s pc a s' pc') (h : s.Ordered l3₀)
    (hpc : CallOrdered s.l3 pc) : s'.Ordered l3₀ ∧ CallOrdered s'.l3 pc' := by
  cases hm with
  | took ht =>
    obtain ⟨o, ho, -⟩ := ht
    exact ⟨h.saveOrderedToStore _, Reaches.upsert_self (isSome_iff_exists.2 ⟨o, ho⟩)⟩
  | declined | unanswered => exact ⟨h.saveOrderedToStore _, trivial⟩
  | deferred =>
    have he := h.succeed_deferred
    exact ⟨⟨h.latest, h.landed, (he _ _).acked⟩, trivial⟩
  | confirmed hc => exact ⟨h.succeed (.of_confirms hc), trivial⟩
  | returned => exact ⟨h.succeed hpc, trivial⟩
  | raised hr =>
    refine ⟨h, ?_⟩
    cases pc <;> cases hr <;> trivial
  | ordered => exact ⟨{ h with }, rfl⟩
  | current | kept => exact ⟨h, rfl⟩
  | _ => exact ⟨{ h with }, trivial⟩

lemma FlushMoves.l3 (hm : FlushMoves s p fl fa s' fl') :
    s'.l3 = s.l3 ∨ ∃ row, s'.l3 = (s.saveOrderedToStore row).l3 := by
  cases hm with
  | persisted | unanswered => exact .inr ⟨_, rfl⟩
  | _ => exact .inl rfl

lemma FlushMoves.keeps_order (hm : FlushMoves s p fl fa s' fl') (h : s.Ordered l3₀) :
    s'.Ordered l3₀ := by
  cases hm with
  | persisted | unanswered => exact h.saveOrderedToStore _
  | _ => exact { h with }

variable [DecidableEq V] [DecidableEq ι]

namespace CasRun

variable {s s' : CasRun V P ι} {a : CasAct V P ι}

lemma l3_of_step (ht : s.step a = some s') :
    s'.tiers.l3 = s.tiers.l3 ∨ ∃ row, s'.tiers.l3 = (s.tiers.saveOrderedToStore row).l3 := by
  cases a with
  | call =>
    obtain ⟨next, hcall, rfl⟩ := map_eq_some_iff.1 ht
    exact (callMoves_of_step hcall).l3
  | flush =>
    obtain ⟨next, hl, rfl⟩ := map_eq_some_iff.1 ht
    exact (flushMoves_of_step hl).l3
  | recreate =>
    simp only [step] at ht
    split_ifs at ht
    cases ht
    exact .inl rfl
  | lapse | otherKey =>
    cases ht
    exact .inl rfl

structure OrderInv (l3₀ : Option (CasRow V)) (s : CasRun V P ι) : Prop where
  tiers : s.tiers.Ordered l3₀
  calls : ∀ i, CallOrdered s.tiers.l3 (s.calls i)

lemma OrderInv.callOrdered_of_step (h : s.OrderInv l3₀) (ht : s.step a = some s') (i : ι) :
    CallOrdered s'.tiers.l3 (s.calls i) := by
  rcases l3_of_step ht with hl3 | ⟨row, hl3⟩
  · rw [hl3]
    exact h.calls i
  rw [hl3]
  exact (h.calls i).upsert row

lemma OrderInv.step (h : s.OrderInv l3₀) (hst : s.step a = some s') : s'.OrderInv l3₀ := by
  have ho := h.callOrdered_of_step hst
  cases a with
  | call i =>
    obtain ⟨next, hcall, rfl⟩ := map_eq_some_iff.1 hst
    obtain ⟨ht, hpc⟩ := (callMoves_of_step hcall).keeps_order h.tiers (h.calls i)
    refine ⟨ht, fun j => ?_⟩
    rcases eq_or_ne j i with rfl | hj
    · simpa using hpc
    · simpa [hj] using ho j
  | flush =>
    obtain ⟨next, hl, rfl⟩ := map_eq_some_iff.1 hst
    exact ⟨(flushMoves_of_step hl).keeps_order h.tiers, ho⟩
  | recreate =>
    simp only [CasRun.step] at hst
    split_ifs at hst
    cases hst
    exact ⟨⟨h.tiers.latest, h.tiers.landed, h.tiers.acked⟩, h.calls⟩
  | lapse | otherKey =>
    cases hst
    exact ⟨⟨h.tiers.latest, h.tiers.landed, h.tiers.acked⟩, h.calls⟩

end CasRun

end Steps

/-! ### The write buffers -/

def WriteBuffer.row (wb : WriteBuffer Unit (CasRow V)) : Option (CasRow V) :=
  (wb.held ()).map PendingWrite.data

/-- A buffer whose rows are stamped and that covers, with L3, what was acknowledged into it. -/
structure BufCovers (l3 : Option (CasRow V)) (acked : List (CasRow V × Option P)) (p : P)
    (wb : WriteBuffer Unit (CasRow V)) : Prop where
  agrees : wb.Agrees
  stamped : ∀ row ∈ wb.row, row.order.isSome
  covers : ∀ row, (row, some p) ∈ acked → Reaches l3 row ∨ Reaches wb.row row

namespace BufCovers

variable {l3 : Option (CasRow V)} {acked : List (CasRow V × Option P)} {p' : P}
  {wb : WriteBuffer Unit (CasRow V)} {row : CasRow V} {buffer : Option P}

lemma addLocked_cases (hag : wb.Agrees) (hrow : row.order.isSome) (retries : Nat) :
    (wb.addLocked CasRow.order () row retries).row = wb.row ∧ Reaches wb.row row ∨
      (wb.addLocked CasRow.order () row retries).row = some row ∧
        ∀ row', Reaches wb.row row' → Reaches (some row) row' := by
  obtain ⟨o, ho⟩ := isSome_iff_exists.1 hrow
  unfold WriteBuffer.addLocked
  split_ifs with hu
  · obtain ⟨pending, o₁, o', hg, ho₁, ho', hlt⟩ := WriteBuffer.lt_of_superseded hu
    rw [ho] at ho₁
    cases ho₁
    have hheld : wb.row = some pending.data := by
      rw [WriteBuffer.row, ← hag (), hg]
      rfl
    exact .inl ⟨rfl, o, ho, pending.data, o', hheld, ho', le_of_lt hlt⟩
  refine .inr ⟨by simp [WriteBuffer.row], ?_⟩
  rintro row' ⟨o₁, ho₁, held, o', hheld, ho', hle⟩
  obtain ⟨pending, he, rfl⟩ := map_eq_some_iff.1 hheld
  rw [← hag ()] at he
  have hl' := WriteBuffer.le_of_not_superseded (Bool.not_eq_true _ ▸ hu) he ho ho'
  exact ⟨o₁, ho₁, row, o, rfl, ho, le_trans hle hl'⟩

section

variable (h : BufCovers l3 acked p wb)
include h

variable (hrow : row.order.isSome)
include hrow

lemma addLocked (retries : Nat) :
    BufCovers l3 acked p (wb.addLocked CasRow.order () row retries) := by
  rcases addLocked_cases h.agrees hrow retries with ⟨he, -⟩ | ⟨he, hl⟩
  all_goals refine ⟨h.agrees.addLocked () row retries, ?_, ?_⟩
  all_goals rw [he]
  · exact h.stamped
  · exact h.covers
  · rintro row' ⟨⟩
    exact hrow
  intro row' hr'
  exact (h.covers row' hr').imp_right (hl row')

lemma add : BufCovers l3 ((row, some p) :: acked) p (wb.add CasRow.order () row) := by
  have hd := h.addLocked hrow 0
  refine ⟨hd.agrees, hd.stamped, ?_⟩
  intro row' hr'
  rcases List.mem_cons.1 hr' with he | hr'
  · cases he
    right
    rcases addLocked_cases h.agrees hrow 0 with ⟨he, hr⟩ | ⟨he, -⟩
    · exact he ▸ hr
    obtain ⟨o, ho⟩ := isSome_iff_exists.1 hrow
    exact he ▸ ⟨o, ho, atLeast_some ho⟩
  · exact hd.covers row' hr'

lemma reEnqueue (retries : Nat) :
    BufCovers l3 acked p (wb.reEnqueue CasRow.order () row retries).1 := by
  unfold WriteBuffer.reEnqueue
  split_ifs
  · exact h.addLocked hrow retries
  · exact h

omit hrow

lemma drain : BufCovers l3 acked p wb.drain.1 := { h with }

lemma ack (hl3 : () ∈ wb.inFlight → ∀ held ∈ wb.row, Reaches l3 held) :
    BufCovers l3 acked p (wb.ack ()) := by
  unfold WriteBuffer.ack
  split_ifs with hc
  · have hnone : (wb.discard ()).row = none := by simp [WriteBuffer.row]
    refine ⟨h.agrees.discard (), by simp [hnone], ?_⟩
    intro row hrow
    rcases h.covers row hrow with hr | hr
    · exact .inl hr
    obtain ⟨o, ho, held, o', hheld, ho', hle⟩ := hr
    exact .inl ((hl3 hc held hheld).trans ⟨o, ho, held, o', rfl, ho', hle⟩)
  · exact h

lemma upsert (row : CasRow V) : BufCovers (OrderedCell.upsert CasRow.order l3 row) acked p wb := by
  refine ⟨h.agrees, h.stamped, ?_⟩
  intro row' hr'
  exact (h.covers row' hr').imp_left fun hr => hr.upsert row

lemma cons_of_ne (hb : buffer ≠ some p) : BufCovers l3 ((row, buffer) :: acked) p wb := by
  refine ⟨h.agrees, h.stamped, ?_⟩
  intro row' hr'
  rcases List.mem_cons.1 hr' with he | hr'
  · cases he
    exact absurd rfl hb
  · exact h.covers row' hr'

end

end BufCovers

/-- The write a flush has drained is stamped, and in L3 once L3 has answered. -/
def FlushOrdered (l3 : Option (CasRow V)) : CasFlush V → Prop
  | .idle => True
  | .persisting pw => pw.data.order.isSome
  | .persisted pw => Reaches l3 pw.data

lemma FlushOrdered.upsert {l3 : Option (CasRow V)} {fl : CasFlush V} (h : FlushOrdered l3 fl)
    (row : CasRow V) : FlushOrdered (OrderedCell.upsert CasRow.order l3 row) fl := by
  cases fl with
  | persisted => exact Reaches.upsert h row
  | _ => exact h

def CasFlush.drained : CasFlush V → Option (PendingWrite (CasRow V))
  | .idle => none
  | .persisting pw => some pw
  | .persisted pw => some pw

namespace CasRun

/-- No flush drops a write that is still claimed, and an acknowledgement of a claimed key finds
nothing later in the buffer than what its flush drained. -/
def Settles (s : CasRun V P ι) : CasAct V P ι → Prop
  | .flush p f .ack => () ∈ (s.tiers.bufs p).inFlight → ∀ pw ∈ (s.flushes p f).drained,
      ∀ held ∈ (s.tiers.bufs p).row, ¬ Takes CasRow.order (some pw.data) held
  | .flush p _ .drop => () ∉ (s.tiers.bufs p).inFlight
  | _ => True

structure CoverInv (s : CasRun V P ι) : Prop where
  bufs : ∀ p, BufCovers s.tiers.l3 s.tiers.acked p (s.tiers.bufs p)
  flushes : ∀ p f, FlushOrdered s.tiers.l3 (s.flushes p f)

lemma row_start (epoch : Nat) (l3 : Option (V × Option L2Order)) (dur : P → Bool) (p : P) :
    WriteBuffer.row ((start epoch l3 dur : CasRun V P ι).tiers.bufs p) = none := by
  simp only [start]
  cases dur p <;> rfl

end CasRun

variable [DecidableEq P]

lemma BufCovers.setBuf {acked : List (CasRow V × Option P)} {wb : WriteBuffer Unit (CasRow V)}
    (h : ∀ p, BufCovers s.l3 acked p (s.bufs p)) (hw : BufCovers s.l3 acked p wb) (q : P) :
    BufCovers s.l3 acked q ((s.setBuf p wb).bufs q) := by
  rcases eq_or_ne q p with rfl | hq
  · simpa [CasTiers.setBuf] using hw
  · simpa [CasTiers.setBuf, hq] using h q

lemma CallMoves.covers (hm : CallMoves s pc a s' pc') (hpc : CallOrdered s.l3 pc)
    (h : ∀ p, BufCovers s.l3 s.acked p (s.bufs p)) (q : P) :
    BufCovers s'.l3 s'.acked q (s'.bufs q) := by
  cases hm with
  | took | declined | unanswered => exact (h q).upsert _
  | @deferred row rev p =>
    rcases eq_or_ne q p with rfl | hq
    · simpa [setBuf, succeed] using (h q).add hpc
    simpa [setBuf, succeed, hq] using
      (h q).cons_of_ne fun he => hq (Option.some.inj he).symm
  | confirmed | returned => exact (h q).cons_of_ne nofun
  | _ => exact h q

lemma FlushMoves.covers (hm : FlushMoves s p fl fa s' fl') (hl : FlushOrdered s.l3 fl)
    (h : ∀ p, BufCovers s.l3 s.acked p (s.bufs p))
    (hac : fa = .ack → () ∈ (s.bufs p).inFlight → ∀ pw ∈ fl.drained,
      ∀ held ∈ (s.bufs p).row, ¬ Takes CasRow.order (some pw.data) held)
    (hd : fa = .drop → () ∉ (s.bufs p).inFlight) :
    (∀ q, BufCovers s'.l3 s'.acked q (s'.bufs q)) ∧ FlushOrdered s'.l3 fl' := by
  cases hm with
  | nothing => exact ⟨BufCovers.setBuf h (h p).drain, trivial⟩
  | drained hheld =>
    refine ⟨BufCovers.setBuf h (h p).drain, ?_⟩
    exact (h p).stamped _ (map_eq_some_iff.2 ⟨_, hheld, rfl⟩)
  | persisted => exact ⟨fun q => (h q).upsert _, Reaches.upsert_self hl⟩
  | unanswered => exact ⟨fun q => (h q).upsert _, hl⟩
  | acked =>
    refine ⟨BufCovers.setBuf h ((h p).ack ?_), trivial⟩
    intro hc held hheld
    exact Reaches.trans hl
      (.of_not_takes (hac rfl hc _ rfl held hheld) ((h p).stamped held hheld))
  | reEnqueued => exact ⟨BufCovers.setBuf h ((h p).reEnqueue hl _), trivial⟩
  | dropped =>
    refine ⟨BufCovers.setBuf h ((h p).ack ?_), trivial⟩
    intro hc
    exact absurd hc (hd rfl)
  | cancelled => exact ⟨h, trivial⟩

namespace CasRun

variable [DecidableEq V] [DecidableEq ι] {s s' : CasRun V P ι} {a : CasAct V P ι}
  {l3₀ : Option (CasRow V)}

lemma CoverInv.flushOrdered_of_step (h : s.CoverInv) (ht : s.step a = some s') (p : P) (f : ι) :
    FlushOrdered s'.tiers.l3 (s.flushes p f) := by
  rcases l3_of_step ht with hl3 | ⟨row, hl3⟩
  · rw [hl3]
    exact h.flushes p f
  rw [hl3]
  exact (h.flushes p f).upsert row

lemma CoverInv.step (h : s.CoverInv) (hr : s.OrderInv l3₀) (he : s.Settles a)
    (ht : s.step a = some s') : s'.CoverInv := by
  have ho := h.flushOrdered_of_step ht
  cases a with
  | call i =>
    obtain ⟨next, hcall, rfl⟩ := map_eq_some_iff.1 ht
    exact ⟨(callMoves_of_step hcall).covers (hr.calls i) h.bufs, ho⟩
  | flush p f =>
    obtain ⟨next, hu, rfl⟩ := map_eq_some_iff.1 ht
    obtain ⟨hb, hl⟩ := (flushMoves_of_step hu).covers (h.flushes p f) h.bufs
      (by rintro rfl; exact he) (by rintro rfl; exact he)
    refine ⟨hb, fun q g => ?_⟩
    rcases eq_or_ne q p with rfl | hq
    · rcases eq_or_ne g f with rfl | hg
      · simpa using hl
      · simpa [hg] using ho q g
    · simpa [hq] using ho q g
  | recreate =>
    simp only [CasRun.step] at ht
    split_ifs at ht
    cases ht
    exact { h with }
  | lapse | otherKey =>
    cases ht
    exact { h with }

end CasRun

end ThreeTears
