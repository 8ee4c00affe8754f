import ThreeTears.Collections.CasOrder

/-!
# Which swaps a row was computed through

While L2 keeps the key, every swap is computed from the one before it, so of two rows the later
one contains the earlier. L2 loses the key when the bucket is created anew, the entry's time to live
runs out or a swap is withdrawn.
-/

namespace ThreeTears

open Function CasTiers WriteBuffer

open OrderedCell

variable {V P ι : Type*}

def CasPc.inPlay (epoch : Nat) : CasPc V → Option (CasRow V)
  | .won _ new revision => some (withL2Order new ⟨epoch, revision⟩)
  | .readingBack _ _ new revision => some (withL2Order new ⟨epoch, revision⟩)
  | .persisting row _ => some row
  | .confirming row _ => some row
  | .bumping row _ => some row
  | _ => none

def CasPc.withdraws : CasPc V → Option Nat
  | .withdrawing revision => some revision
  | _ => none

def CasPc.readsBack : CasPc V → Option (V × Nat)
  | .readingBack _ _ new revision => some (new.value, revision)
  | _ => none

/-- A call that reads its swap back does so under this creation time. -/
def CasPc.KnowsEpoch (epoch : Nat) : CasPc V → Prop
  | .readingBack _ current _ _ => current = epoch
  | _ => True

def CasPc.PastRead : CasPc V → Prop
  | .idle => False
  | .reading _ => False
  | _ => True

instance (pc : CasPc V) : Decidable pc.PastRead := by
  apply CasPc.casesOn (motive := fun pc => Decidable pc.PastRead) pc <;> intros <;>
    dsimp only [CasPc.PastRead] <;> infer_instance

/-- Of two stamped rows the later one was computed through the swaps of the earlier one. -/
def CasRow.Before (x y : CasRow V) : Prop :=
  ∀ ox oy, x.order = some ox → y.order = some oy → ox ≤ oy → x.via ⊆ y.via

def viaOf (row : Option (CasRow V)) : List Nat := (row.map CasRow.via).getD []

namespace CasRun

/-- The rows that matter from here on, stamped with the order their swap won. -/
inductive Play (s : CasRun V P ι) : CasRow V → Prop
  | l3 {row : CasRow V} (h : s.tiers.l3 = some row) : Play s row
  | l2 {row : CasRow V} (h : s.tiers.kv.value = some row) :
    Play s (withL2Order row ⟨s.tiers.epoch, s.tiers.kv.revision⟩)
  | acked {row : CasRow V} {buffer : Option P} (h : (row, buffer) ∈ s.tiers.acked) : Play s row
  | call {row : CasRow V} (i : ι) (h : (s.calls i).inPlay s.tiers.epoch = some row) : Play s row
  | buffered {row : CasRow V} (p : P) (h : (s.tiers.bufs p).row = some row) : Play s row
  | flushed {pw : PendingWrite (CasRow V)} (p : P) (f : ι) (h : (s.flushes p f).drained = some pw) :
    Play s pw.data

lemma play_start {epoch : Nat} {l3 : Option (V × Option L2Order)} {dur : P → Bool}
    {x : CasRow V} (hx : (start epoch l3 dur : CasRun V P ι).Play x) :
    ∃ row, l3 = some row ∧ x = ⟨row.1, row.2, []⟩ := by
  cases hx with
  | l3 h =>
    obtain ⟨row, hrow, rfl⟩ := Option.map_eq_some_iff.1 h
    exact ⟨row, hrow, rfl⟩
  | l2 h | acked h | call i h | flushed p f h => cases h
  | buffered p h => cases (row_start epoch l3 dur p).symm.trans h

lemma Play.of_subset {s s' : CasRun V P ι} {x : CasRow V} (hx : s'.Play x)
    (hep : s'.tiers.epoch = s.tiers.epoch)
    (hl3 : ∀ row, s'.tiers.l3 = some row → s.tiers.l3 = some row)
    (hl2 : ∀ row, s'.tiers.kv.value = some row → s.tiers.kv.value = some row ∧
      s'.tiers.kv.revision = s.tiers.kv.revision)
    (hc : s'.tiers.acked = s.tiers.acked) (hb : s'.tiers.bufs = s.tiers.bufs)
    (hcs : ∀ i row, (s'.calls i).inPlay s.tiers.epoch = some row →
      (s.calls i).inPlay s.tiers.epoch = some row) (hl : s'.flushes = s.flushes) : s.Play x := by
  cases hx with
  | l3 h => exact .l3 (hl3 _ h)
  | l2 h =>
    obtain ⟨hva, hrev⟩ := hl2 _ h
    rw [hep, hrev]
    exact .l2 hva
  | acked h => exact .acked (hc ▸ h)
  | call i h => exact .call i (hcs i _ (hep ▸ h))
  | buffered p h => exact .buffered p (hb ▸ h)
  | flushed p f h => exact .flushed p f (hl ▸ h)

/-- No call but those in `except` is past its read of the key, and no write is in a buffer or with
a flush. -/
@[mk_iff] structure Still (s : CasRun V P ι) (except : ι → Prop) : Prop where
  calls : ∀ i, ¬ except i → ¬ (s.calls i).PastRead
  bufs : ∀ p, (s.tiers.bufs p).row = none
  flushes : ∀ p f, (s.flushes p f).drained = none

/-- L2 loses the key only when the run is still but for the call that withdraws its swap; a call
that finds the bucket newer than it knew reads its own swap back; rows that are found are live;
and the flushes settle what they drained. -/
def KeepsKey (s : CasRun V P ι) : CasAct V P ι → Prop
  | .recreate _ | .lapse => s.Still fun _ => False
  | .call i (.withdraw true) => ∀ revision ∈ (s.calls i).withdraws,
      revision = 0 ∨ s.tiers.kv.revision = revision → s.Still fun j => j = i
  | .call i .readBack => ∀ e ∈ (s.calls i).readsBack, s.tiers.entry = some e
  | .call _ (.getEntry usable) => usable = true
  | .call _ (.fetchFromStore live) => live = true
  | a => s.Settles a

end CasRun

/-- A swap at `revision` that wins is computed through every swap the key's latest row, or L3 when
there is none, was computed through. -/
def ReadOf (kv : KvKey (CasRow V)) (l3 : Option (CasRow V)) (via : List Nat) : Option Nat → Prop
  | none => kv.value = none → viaOf l3 ⊆ via
  | some revision => revision ≤ kv.sequence ∧
      (kv.revision = revision → ∃ row, kv.value = some row ∧ row.via ⊆ via)

lemma ReadOf.mono {kv : KvKey (CasRow V)} {l3 : Option (CasRow V)} {via via' : List Nat}
    {rev : Option Nat} (h : ReadOf kv l3 via rev) (hu : via ⊆ via') : ReadOf kv l3 via' rev := by
  cases rev with
  | none => exact fun hnone => List.Subset.trans (h hnone) hu
  | some =>
    refine ⟨h.1, fun hr => ?_⟩
    obtain ⟨row, hrow, hi⟩ := h.2 hr
    exact ⟨row, hrow, List.Subset.trans hi hu⟩

def CallRead (s : CasTiers V P) : CasPc V → Prop
  | .seeding _ revision => revision = none
  | .regressed _ revision row => ReadOf s.kv s.l3 (viaOf row) revision
  | .mutating _ revision row => ReadOf s.kv s.l3 (viaOf row) revision
  | .swapping _ revision new => ReadOf s.kv s.l3 new.via revision
  | .readingBack _ current _ _ => current = s.epoch
  | _ => True

namespace CasRun

structure Resting (s : CasRun V P ι) : Prop where
  calls : ∀ i, (s.calls i).inPlay s.tiers.epoch = none
  bufs : ∀ p, (s.tiers.bufs p).row = none
  flushes : ∀ p f, (s.flushes p f).drained = none
  contained : ∀ x, s.Play x → x.via ⊆ viaOf s.tiers.l3

structure LineageInv (s : CasRun V P ι) : Prop where
  chain : ∀ x y, s.Play x → s.Play y → x.Before y
  bound : ∀ x, s.Play x → ∀ o ∈ x.order, o ≤ ⟨s.tiers.epoch, s.tiers.kv.bound⟩
  unstamped : ∀ x, s.Play x → x.order = none → x.via = []
  resting : s.tiers.kv.value = none → s.Resting
  calls : ∀ i, CallRead s.tiers (s.calls i)

variable {s s' : CasRun V P ι}

lemma LineageInv.of_play (h : s.LineageInv) (hl : ∀ x, s'.Play x → s.Play x)
    (hb : (⟨s.tiers.epoch, s.tiers.kv.bound⟩ : L2Order) ≤
      ⟨s'.tiers.epoch, s'.tiers.kv.bound⟩) (hr : s'.tiers.kv.value = none → s'.Resting)
    (hc : ∀ i, CallRead s'.tiers (s'.calls i)) : s'.LineageInv where
  chain x y hx hy := h.chain x y (hl x hx) (hl y hy)
  bound x hx o ho := le_trans (h.bound x (hl x hx) o ho) hb
  unstamped x hx := h.unstamped x (hl x hx)
  resting := hr
  calls := hc

/-- What the key's latest row, or L3 when there is none, was computed through contains all that is
in play. -/
lemma LineageInv.via_subset (h : s.LineageInv) {rev : Option Nat} {via : List Nat}
    (hread : ReadOf s.tiers.kv s.tiers.l3 via rev) (hr : s.tiers.Fresh rev)
    {x : CasRow V} (hx : s.Play x) : x.via ⊆ via := by
  cases rev with
  | none => exact List.Subset.trans ((h.resting hr).contained x hx) (hread hr)
  | some =>
    obtain ⟨row, hrow, hi⟩ := hread.2 hr
    cases hx' : x.order with
    | none =>
      rw [h.unstamped x hx hx']
      exact List.nil_subset _
    | some o =>
      have ho := h.bound x hx o hx'
      rw [KvKey.bound_of_some hrow] at ho
      have hb := h.chain x _ hx (.l2 hrow) o _ hx' rfl ho
      exact List.Subset.trans hb hi

lemma inPlay_of_not_pastRead {pc : CasPc V} (h : ¬ pc.PastRead) (epoch : Nat) :
    pc.inPlay epoch = none := by
  cases pc with
  | idle | reading epoch => rfl
  | _ => exact absurd trivial h

end CasRun

variable {s s' : CasTiers V P} {pc pc' : CasPc V} {a : CallAct V P}

namespace CallRead

lemma of_not_pastRead (h : ¬ pc.PastRead) : CallRead s pc := by
  cases pc with
  | idle | reading epoch => trivial
  | _ => exact absurd trivial h

variable (h : CallRead s pc)
include h

lemma knowsEpoch : pc.KnowsEpoch s.epoch := by
  cases pc with
  | readingBack => exact h
  | _ => trivial

variable (hep : s'.epoch = s.epoch)
include hep

lemma imp (hread : ∀ via rev, ReadOf s.kv s.l3 via rev → ReadOf s'.kv s'.l3 via rev) :
    CallRead s' pc := by
  cases pc with
  | regressed stored rev row | mutating epoch rev row | swapping epoch rev new =>
    exact hread _ _ h
  | readingBack => exact Eq.trans h hep.symm
  | _ => exact h

lemma of_kv (hk : s'.kv = s.kv) (hl3 : s.kv.value = none → s'.l3 = s.l3) : CallRead s' pc := by
  apply h.imp hep
  intro via rev hread
  rw [hk]
  cases rev with
  | none =>
    intro hnone
    rw [hl3 hnone]
    exact hread hnone
  | some => exact hread

lemma push {new : CasRow V} (hk : s'.kv = s.kv.push (some new)) : CallRead s' pc := by
  apply h.imp hep
  intro via rev hread
  rw [hk]
  cases rev with
  | none =>
    intro hnone
    cases hnone
  | some =>
    refine ⟨Nat.le_succ_of_le hread.1, fun hr => ?_⟩
    exact absurd hr (KvKey.push_revision_ne hread.1)

lemma foreign (hk : s'.kv = s.kv.foreign) (hl3 : s'.l3 = s.l3) : CallRead s' pc := by
  apply h.imp hep
  intro via rev hread
  rw [hk, hl3]
  cases rev with
  | none => exact hread
  | some => exact ⟨Nat.le_succ_of_le hread.1, hread.2⟩

end CallRead

variable [DecidableEq P]

lemma CallMoves.quiet (hm : CallMoves s pc a s' pc') (hpc : pc.inPlay s.epoch = none)
    (hk : s'.kv = s.kv) : pc'.inPlay s'.epoch = none ∧ s'.l3 = s.l3 ∧ s'.acked = s.acked ∧
      s'.bufs = s.bufs := by
  cases hm with
  | won => exact absurd hk (KvKey.push_ne _ _)
  | raised hr =>
    refine ⟨?_, rfl, rfl, rfl⟩
    cases pc <;> cases hr <;> rfl
  | _ => first | exact ⟨rfl, rfl, rfl, rfl⟩ | cases hpc

lemma CallMoves.read (hm : CallMoves s pc a s' pc') (hpc : CallRead s pc) (hk : s'.kv = s.kv)
    (hu : ∀ usa, a = .getEntry usa → usa = true)
    (hlive : ∀ live, a = .fetchFromStore live → live = true) : CallRead s' pc' := by
  cases hm with
  | absent | moved => rfl
  | found hva => exact ⟨s.kv.revision_le, fun _ => ⟨_, hva, List.Subset.refl _⟩⟩
  | unusable => exact absurd (hu _ rfl) nofun
  | regressed | seeded =>
    cases hlive _ rfl
    cases hpc
    exact fun _ => List.Subset.refl _
  | reread => exact hpc
  | mutated => exact ReadOf.mono hpc (List.subset_cons_self _ _)
  | raised hr => cases pc <;> cases hr <;> trivial
  | unheard => exact absurd hk (KvKey.push_ne _ _)
  | _ => trivial

omit [DecidableEq P] in
lemma WriteBuffer.row_addLocked (wb : WriteBuffer Unit (CasRow V)) (row : CasRow V)
    (retries : Nat) : (wb.addLocked CasRow.order () row retries).row = wb.row ∨
      (wb.addLocked CasRow.order () row retries).row = some row := by
  unfold WriteBuffer.addLocked
  split_ifs
  · exact .inl rfl
  · exact .inr (by simp [WriteBuffer.row])

namespace CallMoves

variable {x : CasRow V} (hm : CallMoves s pc a s' pc')
include hm

lemma epoch : s'.epoch = s.epoch := by
  cases hm with
  | _ => rfl

lemma l3_inPlay (hx : s'.l3 = some x) : s.l3 = some x ∨ pc.inPlay s.epoch = some x := by
  have hsa : ∀ row, (s.saveOrderedToStore row).l3 = some x →
      s.l3 = some x ∨ some row = some x := by
    intro row hx
    rcases OrderedCell.upsert_eq_or CasRow.order s.l3 row with he | he
    · exact .inr (he.symm.trans hx)
    · exact .inl (he.symm.trans hx)
  cases hm with
  | took | declined | unanswered => exact hsa _ hx
  | _ => exact .inl hx

lemma acked_inPlay {buf : Option P}
    (hx : (x, buf) ∈ s'.acked) : (x, buf) ∈ s.acked ∨ pc.inPlay s.epoch = some x := by
  have hu : ∀ row buf', (x, buf) ∈ (row, buf') :: s.acked →
      (x, buf) ∈ s.acked ∨ some row = some x := by
    intro row buf' hx
    rcases List.mem_cons.1 hx with he | hx
    · cases he
      exact .inr rfl
    · exact .inl hx
  cases hm with
  | deferred | confirmed | returned => exact hu _ _ hx
  | _ => exact .inl hx

lemma bufs_inPlay {p : P} (hx : (s'.bufs p).row = some x) :
    (s.bufs p).row = some x ∨ pc.inPlay s.epoch = some x := by
  cases hm with
  | @deferred row rev q =>
    rcases eq_or_ne p q with rfl | hp
    · simp only [succeed, setBuf, update_self] at hx
      rcases (s.bufs p).row_addLocked row 0 with he | he
      · exact .inl (he.symm.trans hx)
      · exact .inr (he.symm.trans hx)
    simp only [succeed, setBuf, update_of_ne hp] at hx
    exact .inl hx
  | _ => exact .inl hx

lemma pc_inPlay (hc : pc.KnowsEpoch s.epoch)
    (hk : s'.kv = s.kv) (hb : a = .readBack → ∀ e ∈ pc.readsBack, s.entry = some e)
    (hx : pc'.inPlay s'.epoch = some x) : pc.inPlay s.epoch = some x := by
  cases hm with
  | won => exact absurd hk (KvKey.push_ne _ _)
  | ordered hep =>
    cases hep
    exact hx
  | current =>
    cases hc
    exact hx
  | kept he => exact absurd (hb rfl _ rfl) he
  | raised hr => cases pc <;> cases hr <;> cases hx
  | _ => first | exact hx | cases hx

end CallMoves

namespace CasRun

variable {s s' : CasRun V P ι} [DecidableEq ι] {t : CasTiers V P}

lemma play_of_callMoves {i : ι} {pc : CasPc V} {a : CallAct V P}
    (hm : CallMoves s.tiers (s.calls i) a t pc) (hc : (s.calls i).KnowsEpoch s.tiers.epoch)
    (hk : t.kv = s.tiers.kv)
    (hb : a = .readBack → ∀ e ∈ (s.calls i).readsBack, s.tiers.entry = some e)
    {x : CasRow V} (hx : Play { s with tiers := t, calls := update s.calls i pc } x) :
    s.Play x := by
  cases hx with
  | l3 h => exact (hm.l3_inPlay h).elim .l3 (.call i)
  | l2 h =>
    simp only [hm.epoch, hk] at h ⊢
    exact .l2 h
  | acked h => exact (hm.acked_inPlay h).elim .acked (.call i)
  | call j h =>
    rcases eq_or_ne j i with rfl | hj
    · simp only [update_self] at h
      exact .call j (hm.pc_inPlay hc hk hb h)
    simp only [update_of_ne hj, hm.epoch] at h
    exact .call j h
  | buffered p h => exact (hm.bufs_inPlay h).elim (.buffered p) (.call i)
  | flushed p f h => exact .flushed p f h

lemma LineageInv.call (h : s.LineageInv) {i : ι} {pc : CasPc V}
    {a : CallAct V P} (hm : CallMoves s.tiers (s.calls i) a t pc) (hk : t.kv = s.tiers.kv)
    (hpc : CallRead t pc)
    (hb : a = .readBack → ∀ e ∈ (s.calls i).readsBack, s.tiers.entry = some e) :
    LineageInv { s with tiers := t, calls := update s.calls i pc } := by
  have hl := @play_of_callMoves _ _ _ _ s _ t i pc a hm (h.calls i).knowsEpoch hk hb
  have hq : s.tiers.kv.value = none → pc.inPlay t.epoch = none ∧ t.l3 = s.tiers.l3 ∧
      t.acked = s.tiers.acked ∧ t.bufs = s.tiers.bufs :=
    fun hnone => hm.quiet ((h.resting hnone).calls i) hk
  refine h.of_play (fun x hx => hl hx) ?_ ?_ ?_
  · show (⟨s.tiers.epoch, s.tiers.kv.bound⟩ : L2Order) ≤ ⟨t.epoch, t.kv.bound⟩
    rw [hm.epoch, hk]
  · intro hnone
    have hnone : s.tiers.kv.value = none := hk ▸ hnone
    have hr := h.resting hnone
    obtain ⟨hown, hl3, -, hu⟩ := hq hnone
    refine ⟨fun j => ?_, fun p => ?_, hr.flushes, fun x hx => ?_⟩
    · rcases eq_or_ne j i with rfl | hj
      · simpa using hown
      · simpa [hj, hm.epoch] using hr.calls j
    · show (t.bufs p).row = none
      rw [hu]
      exact hr.bufs p
    show x.via ⊆ viaOf t.l3
    rw [hl3]
    exact hr.contained x (hl hx)
  intro j
  rcases eq_or_ne j i with rfl | hj
  · simpa using hpc
  · simpa [hj] using (h.calls j).of_kv hm.epoch hk fun hnone => (hq hnone).2.1

omit [DecidableEq P] in
lemma play_of_swap {i : ι} {epoch : Nat} {rev : Option Nat} {new : CasRow V} {pc : CasPc V}
    (hpc : pc = .won epoch new (s.tiers.kv.sequence + 1) ∨ pc = .swapping epoch rev new)
    {x : CasRow V} (hx : Play { s with
      tiers := { s.tiers with kv := s.tiers.kv.push (some new) }
      calls := update s.calls i pc } x) :
    x = withL2Order new ⟨s.tiers.epoch, s.tiers.kv.sequence + 1⟩ ∨ s.Play x := by
  cases hx with
  | l3 hl3 => exact .inr (.l3 hl3)
  | l2 hrow =>
    cases hrow
    exact .inl rfl
  | acked hc => exact .inr (.acked hc)
  | call j hj =>
    rcases eq_or_ne j i with rfl | he
    · simp only [update_self] at hj
      rcases hpc with rfl | rfl
      · cases hj
        exact .inl rfl
      · cases hj
    simp only [update_of_ne he] at hj
    exact .inr (.call j hj)
  | buffered p hrow => exact .inr (.buffered p hrow)
  | flushed p f hw => exact .inr (.flushed p f hw)

omit [DecidableEq P] in
lemma LineageInv.swap (h : s.LineageInv) {i : ι} {epoch : Nat} {rev : Option Nat}
    {new : CasRow V} {pc : CasPc V} (hcall : s.calls i = .swapping epoch rev new)
    (hr : s.tiers.Fresh rev)
    (hpc : pc = .won epoch new (s.tiers.kv.sequence + 1) ∨ pc = .swapping epoch rev new) :
    LineageInv { s with
      tiers := { s.tiers with kv := s.tiers.kv.push (some new) }
      calls := update s.calls i pc } := by
  have hread : ReadOf s.tiers.kv s.tiers.l3 new.via rev := by
    have hc := h.calls i
    rw [hcall] at hc
    exact hc
  have hlt : ∀ x, s.Play x → ∀ o ∈ x.order, o < ⟨s.tiers.epoch, s.tiers.kv.sequence + 1⟩ := by
    intro x hx o ho
    refine lt_of_le_of_lt (h.bound x hx o ho) (L2Order.lt_iff.2 (.inr ⟨rfl, ?_⟩))
    exact Nat.lt_succ_of_le s.tiers.kv.bound_le
  have hl := @play_of_swap _ _ _ s _ i epoch rev new pc hpc
  constructor
  · intro x y hx hy ox oy hox hoy hle
    rcases hl hx with rfl | hx
    · cases hox
      rcases hl hy with rfl | hy
      · exact List.Subset.refl _
      · exact absurd (hlt y hy oy hoy) (not_lt.2 hle)
    rcases hl hy with rfl | hy
    · exact h.via_subset hread hr hx
    · exact h.chain x y hx hy ox oy hox hoy hle
  · intro x hx o ho
    rcases hl hx with rfl | hx
    · cases ho
      exact le_rfl
    · exact le_of_lt (hlt x hx o ho)
  · intro x hx hnone
    rcases hl hx with rfl | hx
    · cases hnone
    · exact h.unstamped x hx hnone
  · intro hnone
    cases hnone
  intro j
  rcases eq_or_ne j i with rfl | hj
  · simp only [update_self]
    rcases hpc with rfl | rfl
    · trivial
    rw [← hcall]
    exact (h.calls j).push rfl rfl
  simp only [update_of_ne hj]
  exact (h.calls j).push rfl rfl

omit [DecidableEq P] [DecidableEq ι] in
lemma LineageInv.subset_of_reaches (h : s.LineageInv) {x : CasRow V} (hx : s.Play x)
    (hr : Reaches s.tiers.l3 x) : x.via ⊆ viaOf s.tiers.l3 := by
  obtain ⟨o, ho, stored, o', ht, ho', hle⟩ := hr
  have hu := h.chain x stored hx (.l3 ht) o o' ho ho' hle
  rw [ht]
  exact hu

omit [DecidableEq P] [DecidableEq ι] in
lemma reaches_of_acked {l3₀ : Option (CasRow V)} (ho : s.OrderInv l3₀) (hc : s.CoverInv)
    (hb : ∀ p, (s.tiers.bufs p).row = none) {x : CasRow V} {buf : Option P}
    (hx : (x, buf) ∈ s.tiers.acked) : Reaches s.tiers.l3 x := by
  cases buf with
  | none => exact ho.tiers.acked x hx
  | some p =>
    rcases (hc.bufs p).covers x hx with hr | hr
    · exact hr
    obtain ⟨o, -, row, o', hrow, -⟩ := hr
    rw [hb p] at hrow
    cases hrow

omit [DecidableEq P] [DecidableEq ι] in
lemma LineageInv.lose {l3₀ : Option (CasRow V)} (h : s.LineageInv) (ho : s.OrderInv l3₀)
    (hc : s.CoverInv) {exc : ι → Prop} (ht : s.Still exc) {epoch : Nat}
    {kv : KvKey (CasRow V)} {calls : ι → CasPc V} (hcs : ∀ i, ¬ (calls i).PastRead)
    (hva : kv.value = none)
    (hb : (⟨s.tiers.epoch, s.tiers.kv.bound⟩ : L2Order) ≤ ⟨epoch, kv.bound⟩) :
    LineageInv { s with tiers := { s.tiers with epoch := epoch, kv := kv }, calls := calls } := by
  have hl : ∀ x,
      Play { s with tiers := { s.tiers with epoch := epoch, kv := kv }, calls := calls } x →
      s.tiers.l3 = some x ∨ ∃ buf, (x, buf) ∈ s.tiers.acked := by
    intro x hx
    cases hx with
    | l3 hl3 => exact .inl hl3
    | l2 hrow => cases hva.symm.trans hrow
    | acked hac => exact .inr ⟨_, hac⟩
    | call j hj => cases (inPlay_of_not_pastRead (hcs j) epoch).symm.trans hj
    | buffered p hrow => cases (ht.bufs p).symm.trans hrow
    | flushed p f hw => cases (ht.flushes p f).symm.trans hw
  refine h.of_play ?_ hb ?_ fun i => .of_not_pastRead (hcs i)
  · intro x hx
    rcases hl x hx with hl3 | ⟨buf, hac⟩
    · exact .l3 hl3
    · exact .acked hac
  intro _
  refine ⟨fun i => inPlay_of_not_pastRead (hcs i) _, ht.bufs, ht.flushes, ?_⟩
  intro x hx
  show x.via ⊆ viaOf s.tiers.l3
  rcases hl x hx with hl3 | ⟨buf, hac⟩
  · rw [hl3]
    exact List.Subset.refl _
  exact h.subset_of_reaches (.acked hac)
    (reaches_of_acked ho hc ht.bufs hac)

end CasRun

namespace FlushMoves

variable {p : P} {fl fl' : CasFlush V} {fa : CasFlushAct} {x : CasRow V}
  (hm : FlushMoves s p fl fa s' fl')
include hm

lemma tiers : s'.epoch = s.epoch ∧ s'.kv = s.kv ∧ s'.acked = s.acked := by
  cases hm with
  | _ => exact ⟨rfl, rfl, rfl⟩

lemma epochsRead : s'.epochsRead = s.epochsRead := by
  cases hm with
  | _ => rfl

lemma l3_drained (hx : s'.l3 = some x) :
    s.l3 = some x ∨ ∃ pw, fl.drained = some pw ∧ pw.data = x := by
  have hsa : ∀ pw : PendingWrite (CasRow V), (s.saveOrderedToStore pw.data).l3 = some x →
      s.l3 = some x ∨ ∃ pw', some pw = some pw' ∧ pw'.data = x := by
    intro pw hx
    rcases OrderedCell.upsert_eq_or CasRow.order s.l3 pw.data with he | he
    · exact .inr ⟨pw, rfl, Option.some.inj (he.symm.trans hx)⟩
    · exact .inl (he.symm.trans hx)
  cases hm with
  | persisted | unanswered => exact hsa _ hx
  | _ => exact .inl hx

omit hm in
omit [DecidableEq P] in
lemma row_ack {wb : WriteBuffer Unit (CasRow V)} (hx : (wb.ack ()).row = some x) :
    wb.row = some x := by
  unfold WriteBuffer.ack at hx
  split_ifs at hx
  · simp [row] at hx
  · exact hx

lemma bufs_drained {q : P} (hx : (s'.bufs q).row = some x) :
    (s.bufs q).row = some x ∨ ∃ pw, fl.drained = some pw ∧ pw.data = x := by
  rcases eq_or_ne q p with rfl | hq
  · cases hm with
    | nothing | drained => exact .inl (by simpa [setBuf, row] using hx)
    | acked | dropped =>
      simp only [setBuf, update_self] at hx
      exact .inl (row_ack hx)
    | @reEnqueued pw =>
      simp only [setBuf, update_self, reEnqueue] at hx
      split_ifs at hx
      · rcases (s.bufs q).row_addLocked pw.data (pw.retries + 1) with he | he
        · exact .inl (he.symm.trans hx)
        · exact .inr ⟨pw, rfl, Option.some.inj (he.symm.trans hx)⟩
      · exact .inl hx
    | _ => exact .inl hx
  left
  cases hm with
  | persisted | unanswered | cancelled => exact hx
  | _ =>
    simp only [setBuf, update_of_ne hq] at hx
    exact hx

lemma drained_of {pw : PendingWrite (CasRow V)}
    (hw : fl'.drained = some pw) : fl.drained = some pw ∨ (s.bufs p).row = some pw.data := by
  cases hm with
  | drained hheld =>
    cases hw
    exact .inr (Option.map_eq_some_iff.2 ⟨_, hheld, rfl⟩)
  | persisted | unanswered => exact .inl hw
  | _ => cases hw

end FlushMoves

namespace CasRun

variable {s s' : CasRun V P ι} [DecidableEq ι]

lemma play_of_flushMoves {p : P} {f : ι} {fl : CasFlush V} {fa : CasFlushAct}
    (hm : FlushMoves s.tiers p (s.flushes p f) fa t fl) {x : CasRow V} (hx : Play { s with
      tiers := t
      flushes := update s.flushes p (update (s.flushes p) f fl) } x) :
    s.Play x := by
  obtain ⟨hep, hk, hc⟩ := hm.tiers
  have hown : (∃ pw, (s.flushes p f).drained = some pw ∧ pw.data = x) → s.Play x := by
    rintro ⟨pw, hw, rfl⟩
    exact .flushed p f hw
  cases hx with
  | l3 h => exact (hm.l3_drained h).elim .l3 hown
  | l2 h =>
    simp only [hep, hk] at h ⊢
    exact .l2 h
  | acked h =>
    simp only [hc] at h
    exact .acked h
  | call j h =>
    simp only [hep] at h
    exact .call j h
  | buffered q h => exact (hm.bufs_drained h).elim (.buffered q) hown
  | flushed q g h =>
    rcases eq_or_ne q p with rfl | hq
    · rcases eq_or_ne g f with rfl | hg
      · simp only [update_self] at h
        exact (hm.drained_of h).elim (.flushed q g) (.buffered q)
      simp only [update_self, update_of_ne hg] at h
      exact .flushed q g h
    simp only [update_of_ne hq] at h
    exact .flushed q g h

lemma LineageInv.flush (h : s.LineageInv) {p : P} {f : ι} {fl : CasFlush V}
    {fa : CasFlushAct} (hm : FlushMoves s.tiers p (s.flushes p f) fa t fl) : LineageInv { s with
      tiers := t
      flushes := update s.flushes p (update (s.flushes p) f fl) } := by
  obtain ⟨hep, hk, hc⟩ := hm.tiers
  have hl := @play_of_flushMoves _ _ _ _ s _ t p f fl fa hm
  have hl3 : s.tiers.kv.value = none → t.l3 = s.tiers.l3 := by
    intro hnone
    have ho := (h.resting hnone).flushes p f
    generalize s.flushes p f = fl₀ at hm ho
    cases hm with
    | persisted | unanswered => cases ho
    | _ => rfl
  refine h.of_play (fun x hx => hl hx) ?_ ?_ ?_
  · show (⟨s.tiers.epoch, s.tiers.kv.bound⟩ : L2Order) ≤ ⟨t.epoch, t.kv.bound⟩
    rw [hep, hk]
  · intro hnone
    have hnone : s.tiers.kv.value = none := hk ▸ hnone
    have hr := h.resting hnone
    have hd : ∀ pw, fl.drained ≠ some pw := by
      intro pw hw
      rcases hm.drained_of hw with hw | hw
      · cases (hr.flushes p f).symm.trans hw
      · cases (hr.bufs p).symm.trans hw
    refine ⟨fun i => ?_, fun q => ?_, fun q g => ?_, fun x hx => ?_⟩
    · show (s.calls i).inPlay t.epoch = none
      rw [hep]
      exact hr.calls i
    · rw [Option.eq_none_iff_forall_ne_some]
      intro x hx
      rcases hm.bufs_drained hx with hx | ⟨pw, hw, -⟩
      · cases (hr.bufs q).symm.trans hx
      · cases (hr.flushes p f).symm.trans hw
    · rcases eq_or_ne q p with rfl | hq
      · rcases eq_or_ne g f with rfl | hg
        · simpa [Option.eq_none_iff_forall_ne_some] using hd
        · simpa [hg] using hr.flushes q g
      · simpa [hq] using hr.flushes q g
    show x.via ⊆ viaOf t.l3
    rw [hl3 hnone]
    exact hr.contained x (hl hx)
  intro i
  exact (h.calls i).of_kv hep hk hl3

end CasRun

end ThreeTears
