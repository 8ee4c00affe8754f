import ThreeTears.Collections.CasLineage
import ThreeTears.Collections.Generation
import ThreeTears.Collections.ExpiringCas
import ThreeTears.Lib.Families

/-!
# Idempotency keys

`IdempotencyKeyStore.claim` creates the row of a key that no tier holds alive, and `complete` and
`fail` put an outcome into whatever row is alive. The row is decided in L2 and written behind to L3.
While the bucket keeps the key, every row that has a second to live is of the one claim in L2.
-/

namespace ThreeTears

open ExpiringRun

variable {C P ι : Type*}

/-- What a claim writes: by which caller, with which metadata, when and until when. -/
structure Claim (C : Type*) where
  claimer : C
  metadata : Option Text
  dateClaimed : Int
  expiresAt : Int
  deriving DecidableEq

/-- The claim has a second to live, so that L2 still holds its entry. -/
def Claim.Lasts (now : Int) (claim : Claim C) : Prop := now + CasTable.second ≤ claim.expiresAt
deriving Decidable

inductive ClaimOutcome
  | completed (result : Text)
  | failed (error : Text)
  deriving DecidableEq

/-- The row of a key: pending until a caller has reported an outcome. -/
structure ClaimRow (C : Type*) where
  claim : Claim C
  reported : Option (C × ClaimOutcome)
  deriving DecidableEq

/-- `claim`, and the transitions `complete` and `fail`. -/
inductive ClaimOp (C : Type*)
  | claim (caller : C) (metadata : Option Text)
  | report (caller : C) (outcome : ClaimOutcome)
  deriving DecidableEq

/-- `_claim_if_absent` and `_to_terminal`, on a table that is written behind. -/
def claimTable (ttl : Int) : CasTable (ClaimOp C) (ClaimRow C) where
  expiresAt row := row.claim.expiresAt
  mutate
    | .claim caller metadata, now, none => some ⟨⟨caller, metadata, now, now + ttl⟩, none⟩
    | .claim _ _, _, some _ => none
    | .report caller outcome, _, some row => some { row with reported := some (caller, outcome) }
    | .report _ _, _, none => none
  defersL3Writes := true

def keepsKey : ExpiringAct (ClaimOp C) (ClaimRow C) P ι → Bool
  | .recreate _ => false
  | .call _ (.withdraw delivered) => !delivered
  | _ => true

def Begun (as : List (ExpiringAct (ClaimOp C) (ClaimRow C) P ι)) (op : ClaimOp C) : Prop :=
  ∃ i epoch, .begin i op epoch ∈ as

namespace IdempotencyKeys

def Dead (now : Int) (kv : KvKey (CasRow (ClaimRow C))) : Prop :=
  ∀ row ∈ kv.value, row.value.claim.expiresAt ≤ now

/-- What the callback of a call makes of the row it is shown. -/
def Makes (request : Option (CasRequest (ClaimOp C) (ClaimRow C))) (new : ClaimRow C) : Prop :=
  ∃ asked, request = some asked ∧ match asked.op with
    | .claim caller metadata =>
      new.claim.claimer = caller ∧ new.claim.metadata = metadata ∧ new.reported = none
    | .report caller outcome => new.reported = some (caller, outcome)

/-- The caller of the row's claim made one, and an outcome in it was reported by the caller it
names. -/
structure Sourced (as : List (ExpiringAct (ClaimOp C) (ClaimRow C) P ι)) (row : ClaimRow C) :
    Prop where
  claim : Begun as (.claim row.claim.claimer row.claim.metadata)
  report : ∀ caller outcome, row.reported = some (caller, outcome) →
    Begun as (.report caller outcome)

/-- While the key is as a call read it, L2 holds no live row, or the one the call was shown. -/
def RowFit (as : List (ExpiringAct (ClaimOp C) (ClaimRow C) P ι)) (now : Int)
    (kv : KvKey (CasRow (ClaimRow C))) (revision : Option Nat)
    (row : Option (CasRow (ClaimRow C))) : Prop :=
  (∀ r ∈ revision, r ≤ kv.sequence) ∧ (∀ shown ∈ row, Sourced as shown.value) ∧
    (kv.Fresh revision → Dead now kv ∨ row.isSome ∧ kv.value = row)

/-- While the key is as a call read it, L2 holds no live row, or one of the claim the call is
about to write. -/
def NewFit (as : List (ExpiringAct (ClaimOp C) (ClaimRow C) P ι)) (now : Int)
    (kv : KvKey (CasRow (ClaimRow C))) (revision : Option Nat) (new : ClaimRow C) : Prop :=
  (∀ r ∈ revision, r ≤ kv.sequence) ∧ Sourced as new ∧
    (kv.Fresh revision → Dead now kv ∨ ∃ row ∈ kv.value, row.value.claim = new.claim)

def CallFit (as : List (ExpiringAct (ClaimOp C) (ClaimRow C) P ι)) (now : Int)
    (tiers : CasTiers (ClaimRow C) P)
    (request : Option (CasRequest (ClaimOp C) (ClaimRow C))) : CasPc (ClaimRow C) → Prop
  | .reading epoch => epoch = tiers.epoch
  | .seeding epoch revision => epoch = tiers.epoch ∧ RowFit as now tiers.kv revision none
  | .regressed _ revision row => RowFit as now tiers.kv revision row
  | .mutating epoch revision row => epoch = tiers.epoch ∧ RowFit as now tiers.kv revision row
  | .swapping epoch revision new =>
    epoch = tiers.epoch ∧ Makes request new.value ∧ NewFit as now tiers.kv revision new.value
  | .won epoch new _ => epoch = tiers.epoch ∧ Makes request new.value
  | .readingBack _ _ _ _ => False
  | .persisting row _ | .confirming row _ | .bumping row _ => Makes request row.value
  | .idle | .withdrawing _ => True

structure Inv (as : List (ExpiringAct (ClaimOp C) (ClaimRow C) P ι))
    (s : ExpiringRun (ClaimOp C) (ClaimRow C) P ι) : Prop where
  epochs : ∀ epoch ∈ s.cas.tiers.epochsRead, epoch = s.cas.tiers.epoch
  calls : ∀ i, CallFit as s.now s.cas.tiers (s.requests i) (s.cas.calls i)
  asked : ∀ i, ∀ request ∈ s.requests i, Begun as request.op
  sourced : ∀ row, s.cas.Play row → Sourced as row.value
  lives : ∀ row, s.cas.Play row → row.value.claim.Lasts s.now →
    ∃ latest ∈ s.cas.tiers.kv.value, latest.value.claim = row.value.claim
  answers : ∀ op value, (op, some value) ∈ s.answers →
    (∃ row buffer, (row, buffer) ∈ s.cas.tiers.acked ∧ row.value = value) ∧
      ∀ caller metadata, op = .claim caller metadata → value.claim.claimer = caller

variable {as : List (ExpiringAct (ClaimOp C) (ClaimRow C) P ι)} {ttl : Int}
  {tiers : CasTiers (ClaimRow C) P} {pc : CasPc (ClaimRow C)}

section Transfer

variable {now now' : Int} {kv kv' : KvKey (CasRow (ClaimRow C))} {tiers' : CasTiers (ClaimRow C) P}
  {rev : Option Nat} {row : Option (CasRow (ClaimRow C))} {new : ClaimRow C}
  {req : Option (CasRequest (ClaimOp C) (ClaimRow C))}

lemma Dead.not_lasts (h : Dead now kv) {row : CasRow (ClaimRow C)} (hrow : kv.value = some row) :
    ¬ row.value.claim.Lasts now := by
  have he := h row hrow
  simp only [Claim.Lasts, CasTable.second]
  omega

lemma Dead.mono (h : Dead now kv) (ho : now ≤ now') (hva : kv'.value = kv.value) : Dead now' kv' :=
  fun row hrow => le_trans (h row (hva ▸ hrow)) ho

lemma RowFit.mono (h : RowFit as now kv rev row) (ho : now ≤ now') (hk : kv.Stands kv') :
    RowFit as now' kv' rev row := by
  refine ⟨fun r hr => le_trans (h.1 r hr) hk.1, h.2.1, fun hfr => ?_⟩
  obtain ⟨hb, hva⟩ := hk.2 rev h.1 hfr
  exact (h.2.2 hb).imp (fun hdead => hdead.mono ho hva)
    fun hrow => ⟨hrow.1, hva.trans hrow.2⟩

lemma NewFit.mono (h : NewFit as now kv rev new) (ho : now ≤ now') (hk : kv.Stands kv') :
    NewFit as now' kv' rev new := by
  refine ⟨fun r hr => le_trans (h.1 r hr) hk.1, h.2.1, fun hfr => ?_⟩
  obtain ⟨hb, hva⟩ := hk.2 rev h.1 hfr
  rw [hva]
  exact (h.2.2 hb).imp_left fun hdead => hdead.mono ho hva

variable (h : CallFit as now tiers req pc)
include h

lemma CallFit.imp (he : tiers'.epoch = tiers.epoch)
    (hrow : ∀ rev row, RowFit as now tiers.kv rev row → RowFit as now' tiers'.kv rev row)
    (hnew : ∀ rev new, NewFit as now tiers.kv rev new →
      NewFit as now' tiers'.kv rev new) : CallFit as now' tiers' req pc := by
  cases pc with
  | reading => exact h.trans he.symm
  | seeding epoch rev | mutating epoch rev row =>
    exact ⟨h.1.trans he.symm, hrow _ _ h.2⟩
  | regressed => exact hrow _ _ h
  | swapping => exact ⟨h.1.trans he.symm, h.2.1, hnew _ _ h.2.2⟩
  | won => exact ⟨h.1.trans he.symm, h.2⟩
  | _ => exact h

lemma CallFit.mono (ho : now ≤ now')
    (he : tiers'.epoch = tiers.epoch) (hk : tiers.kv.Stands tiers'.kv) :
    CallFit as now' tiers' req pc :=
  h.imp he (fun _ _ hrow => hrow.mono ho hk) fun _ _ hnew => hnew.mono ho hk

lemma CallFit.lapse : CallFit as now { tiers with kv := tiers.kv.lapse } req pc := by
  have hdead : Dead now tiers.kv.lapse := by rintro row ⟨⟩
  exact h.imp rfl (fun _ _ hrow => ⟨hrow.1, hrow.2.1, fun _ => .inl hdead⟩)
    fun _ _ hnew => ⟨hnew.1, hnew.2.1, fun _ => .inl hdead⟩

omit h

lemma RowFit.newFit {asking : CasRequest (ClaimOp C) (ClaimRow C)}
    (h : RowFit as now kv rev row) (has : Begun as asking.op)
    (hnew : (claimTable ttl).mutate asking.op asking.clock (row.map CasRow.value) = some new) :
    NewFit as now kv rev new ∧ Makes (some asking) new := by
  obtain ⟨hle, ho, hr⟩ := h
  obtain ⟨op, clo, seen⟩ := asking
  cases op with
  | claim =>
    cases row with
    | some => cases hnew
    | none =>
      cases hnew
      refine ⟨⟨hle, ⟨has, nofun⟩, fun h => .inl ?_⟩, _, rfl, rfl, rfl, rfl⟩
      exact (hr h).resolve_right (by simp)
  | report =>
    cases row with
    | none => cases hnew
    | some shown =>
      cases hnew
      have hh := ho shown rfl
      refine ⟨⟨hle, ⟨hh.claim, ?_⟩, fun h => ?_⟩, _, rfl, rfl⟩
      · rintro cal' out' ⟨⟩
        exact has
      · exact (hr h).imp_right fun hva => ⟨shown, hva.2, rfl⟩

end Transfer

section Steps

variable {s s' : ExpiringRun (ClaimOp C) (ClaimRow C) P ι} {i : ι} {act : CallAct (ClaimRow C) P}
  (h : Inv as s)
include h

lemma Inv.sourced_l2 {row : CasRow (ClaimRow C)}
    (hrow : s.cas.tiers.kv.value = some row) : Sourced as row.value := by
  have ho := h.sourced _ (.l2 hrow)
  exact ho

lemma Inv.rowFit_fetched {rev : Option Nat}
    (hrow : RowFit as s.now s.cas.tiers.kv rev none) (live : Bool) :
    RowFit as s.now s.cas.tiers.kv rev (if live then s.cas.tiers.l3 else none) := by
  refine ⟨hrow.1, fun shown hh => ?_, fun hr => .inl ?_⟩
  · cases live with
    | false => cases hh
    | true => exact h.sourced shown (.l3 hh)
  · exact (hrow.2.2 hr).resolve_right (by simp)

variable [DecidableEq P]

lemma Inv.callFit_of_moves (hl : s.Follows (claimTable ttl) i act)
    (hmv : CallMoves s.cas.tiers (s.cas.calls i) act tiers pc)
    (hk : tiers.kv = s.cas.tiers.kv) : CallFit as s.now tiers (s.requests i) pc := by
  have hcall := h.calls i
  generalize hpc : s.cas.calls i = before at hmv hcall
  cases hmv with
  | begin => cases hl
  | absent hva =>
    refine ⟨hcall, nofun, nofun, fun _ => .inl fun row hrow => ?_⟩
    rw [hva] at hrow
    cases hrow
  | @found epoch row hva =>
    refine ⟨hcall, ?_, ?_, fun _ => .inr ⟨rfl, hva⟩⟩
    · rintro r ⟨⟩
      exact s.cas.tiers.kv.revision_le
    rintro shown ⟨⟩
    exact h.sourced_l2 hva
  | @unusable epoch row hva =>
    refine ⟨hcall, ?_, nofun, fun _ => .inl fun found ho => ?_⟩
    · rintro r ⟨⟩
      exact s.cas.tiers.kv.revision_le
    rw [hva] at ho
    cases ho
    simpa [ExpiringRun.Follows, hva, CasTable.isLive, CasTable.RowIsExpired, claimTable]
      using hl
  | regressed => exact h.rowFit_fetched hcall.2 _
  | seeded => exact ⟨hcall.1, h.rowFit_fetched hcall.2 _⟩
  | refused | noop => trivial
  | reread => exact ⟨rfl, hcall⟩
  | @mutated epoch rev row va =>
    have hva : some va = s.callback (claimTable ttl) i := hl
    cases has : s.requests i with
    | none => simp [callback, has] at hva
    | some asking =>
      rw [callback_eq has hpc] at hva
      obtain ⟨hnew, hm⟩ := hcall.2.newFit (h.asked i asking has) hva.symm
      exact ⟨hcall.1, hm, hnew⟩
  | won | unheard | withdrew => exact absurd hk (KvKey.push_ne _ _)
  | lost => exact hcall.1
  | ordered => exact hcall.2
  | moved he => exact absurd hcall.1.symm he
  | current | kept => exact hcall.elim
  | took | declined => exact hcall
  | raised hr => cases before <;> cases hr <;> trivial
  | _ => trivial

omit h in
lemma CallFit.of_answer {req : Option (CasRequest (ClaimOp C) (ClaimRow C))}
    {before : CasPc (ClaimRow C)} {value : ClaimRow C} {now : Int}
    {start : CasTiers (ClaimRow C) P} (h : CallFit as now start req before)
    (hm : CallMoves start before act tiers pc)
    (han : before.answer start.l3 act = some (some value)) :
    Makes req value ∧ ∃ row buf, (row, buf) ∈ tiers.acked ∧ row.value = value := by
  cases hm with
  | deferred | returned =>
    cases han
    exact ⟨h, _, _, List.mem_cons_self, rfl⟩
  | confirmed hc =>
    simp only [CasPc.answer, hc, if_true, Option.some.injEq] at han
    subst han
    exact ⟨h, _, _, List.mem_cons_self, rfl⟩
  | unconfirmed hc => simp [CasPc.answer, hc] at han
  | raised => cases before <;> cases han
  | _ => cases han

omit h in
lemma acked_subset {start : CasTiers (ClaimRow C) P}
    {before : CasPc (ClaimRow C)} (hm : CallMoves start before act tiers pc) :
    start.acked ⊆ tiers.acked := by
  cases hm with
  | deferred | confirmed | returned => exact List.subset_cons_self _ _
  | _ => exact List.Subset.refl _

lemma Inv.answers_of_moves
    (hmv : CallMoves s.cas.tiers (s.cas.calls i) act tiers pc) (op : ClaimOp C)
    (va : ClaimRow C) (han : (op, some va) ∈ s.answered i act) :
    (∃ row buf, (row, buf) ∈ tiers.acked ∧ row.value = va) ∧
      ∀ caller met, op = .claim caller met → va.claim.claimer = caller := by
  have hold (hmem : (op, some va) ∈ s.answers) :
      (∃ row buf, (row, buf) ∈ tiers.acked ∧ row.value = va) ∧
        ∀ caller met, op = .claim caller met → va.claim.claimer = caller := by
    obtain ⟨⟨row, buf, hac, hrow⟩, hc⟩ := h.answers op va hmem
    exact ⟨⟨row, buf, acked_subset hmv hac, hrow⟩, hc⟩
  simp only [answered] at han
  split at han
  next hr hans =>
    obtain he | hmem := List.mem_cons.1 han
    · cases he
      obtain ⟨⟨asking, has, hm⟩, hac⟩ := (h.calls i).of_answer hmv hans
      refine ⟨hac, fun caller met hop => ?_⟩
      rw [hr, Option.some.injEq] at has
      rw [← has, hop] at hm
      exact hm.1
    · exact hold hmem
  next => exact hold han

variable [DecidableEq ι]

lemma Inv.call (ho : s.Follows (claimTable ttl) i act)
    (hm : CallMoves s.cas.tiers (s.cas.calls i) act tiers pc)
    (hk : tiers.kv = s.cas.tiers.kv) : Inv as { s with
      cas := { s.cas with tiers := tiers, calls := Function.update s.cas.calls i pc }
      answers := s.answered i act } := by
  have hnone : (s.cas.calls i).readsBack = none ∧
      (s.cas.calls i).KnowsEpoch s.cas.tiers.epoch := by
    have hcall := h.calls i
    cases hpc : s.cas.calls i with
    | readingBack =>
      rw [hpc] at hcall
      exact hcall.elim
    | _ => exact ⟨rfl, trivial⟩
  have hl {row : CasRow (ClaimRow C)} (hrow : CasRun.Play
      { s.cas with tiers := tiers, calls := Function.update s.cas.calls i pc } row) :
      s.cas.Play row :=
    CasRun.play_of_callMoves hm hnone.2 hk (by simp [hnone.1]) hrow
  refine ⟨hm.epochsRead h.epochs, ?_, h.asked, fun row hrow => h.sourced row (hl hrow),
    fun row hrow hlive => ?_, h.answers_of_moves hm⟩
  · refine forall_update (I := fun j pc => CallFit as s.now tiers (s.requests j) pc)
      (fun j => ?_) (h.callFit_of_moves ho hm hk)
    exact (h.calls j).mono le_rfl hm.epoch (hk ▸ .refl _)
  simp only [hk]
  exact h.lives row (hl hrow) hlive

omit [DecidableEq P] in
lemma Inv.swap {epoch : Nat} {rev : Option Nat}
    {new : CasRow (ClaimRow C)} (hcall : s.cas.calls i = .swapping epoch rev new)
    (hfr : s.cas.tiers.kv.Fresh rev)
    (hpc : pc = .won epoch new (s.cas.tiers.kv.sequence + 1) ∨
      pc = .swapping epoch rev new) : Inv as { s with
      cas := { s.cas with
        tiers := { s.cas.tiers with kv := s.cas.tiers.kv.push (some new) }
        calls := Function.update s.cas.calls i pc } } := by
  have hi := h.calls i
  rw [hcall] at hi
  obtain ⟨hep, hm, hle, ho, hnew⟩ := hi
  have hpl {row : CasRow (ClaimRow C)} (hrow : CasRun.Play { s.cas with
      tiers := { s.cas.tiers with kv := s.cas.tiers.kv.push (some new) }
      calls := Function.update s.cas.calls i pc } row) :
      row.value = new.value ∨ s.cas.Play row := by
    apply (CasRun.play_of_swap hpc hrow).imp_left
    rintro rfl
    rfl
  refine ⟨h.epochs, ?_, h.asked, fun row hrow => ?_, fun row hrow hlive => ?_, h.answers⟩
  · refine forall_update (I := fun j pc => CallFit as s.now
      { s.cas.tiers with kv := s.cas.tiers.kv.push (some new) } (s.requests j) pc)
      (fun j => (h.calls j).mono le_rfl rfl (.push _ new)) ?_
    obtain rfl | rfl := hpc
    · exact ⟨hep, hm⟩
    refine ⟨hep, hm, fun r hr => Nat.le_succ_of_le (hle r hr), ho, fun hg => ?_⟩
    exact absurd hg (KvKey.not_fresh_push hle)
  · obtain hq | hold := hpl hrow
    · exact hq ▸ ho
    · exact h.sourced row hold
  refine ⟨new, rfl, ?_⟩
  obtain hq | hold := hpl hrow
  · rw [hq]
  obtain ⟨latest, hl, hc⟩ := h.lives row hold hlive
  obtain hdead | ⟨found, hfo, hsa⟩ := hnew hfr
  · exact absurd (hc ▸ hlive) (hdead.not_lasts hl)
  cases Option.mem_unique hl hfo
  exact hsa.symm.trans hc

omit [DecidableEq P] [DecidableEq ι] in
lemma Inv.of_play (hep : s'.cas.tiers.epoch = s.cas.tiers.epoch)
    (he : s'.cas.tiers.epochsRead = s.cas.tiers.epochsRead)
    (hac : s'.cas.tiers.acked = s.cas.tiers.acked) (hr : s'.requests = s.requests)
    (han : s'.answers = s.answers) (ho : s.now ≤ s'.now)
    (hcs : ∀ i, CallFit as s'.now s'.cas.tiers (s'.requests i) (s'.cas.calls i))
    (hpl : ∀ row, s'.cas.Play row → s.cas.Play row)
    (hl : ∀ latest ∈ s.cas.tiers.kv.value, latest.value.claim.Lasts s'.now →
      latest ∈ s'.cas.tiers.kv.value) : Inv as s' := by
  refine ⟨he ▸ hep ▸ h.epochs, hcs, hr ▸ h.asked,
    fun row hrow => h.sourced row (hpl row hrow), fun row hrow hlive => ?_,
    han ▸ hac ▸ h.answers⟩
  obtain ⟨latest, hla, hc⟩ :=
    h.lives row (hpl row hrow) (le_trans (Int.add_le_add_right ho _) hlive)
  exact ⟨latest, hl latest hla (hc ▸ hlive), hc⟩

theorem Inv.step [DecidableEq C] {a : ExpiringAct (ClaimOp C) (ClaimRow C) P ι}
    (hmem : a ∈ as) (hk : keepsKey a) (ht : s.step (claimTable ttl) a = some s') : Inv as s' := by
  cases moves_of_step ht with
  | tick time =>
    have ho : s.now ≤ s.now + time := by omega
    exact h.of_play rfl rfl rfl rfl rfl ho
      (fun i => (h.calls i).mono ho rfl (.refl _)) (fun _ => id) fun _ hl _ => hl
  | sweep row =>
    refine h.of_play rfl rfl rfl rfl rfl le_rfl
      (fun i => (h.calls i).mono le_rfl rfl (.refl _)) (fun row hrow => ?_)
      fun _ hl _ => hl
    exact hrow.of_subset rfl nofun (fun _ hva => ⟨hva, rfl⟩) rfl rfl (fun _ _ => id) rfl
  | lapse row hva he =>
    refine h.of_play rfl rfl rfl rfl rfl le_rfl (fun i => (h.calls i).lapse)
      (fun row hrow => ?_) fun latest hl hlive => ?_
    · exact hrow.of_subset rfl (fun _ => id) nofun rfl rfl (fun _ _ => id) rfl
    -- only the entry of a row that has less than a second to live goes
    rw [hva] at hl
    cases hl
    simp only [CasTable.MayLapse, claimTable] at he
    simp only [Claim.Lasts] at hlive
    omega
  | begin i _ epoch _ hep =>
    have hb : epoch = s.cas.tiers.epoch := hep.elim id (h.epochs epoch)
    have hpl (row) (hrow : CasRun.Play { s.cas with
        tiers := { s.cas.tiers with epochsRead := epoch :: s.cas.tiers.epochsRead }
        calls := Function.update s.cas.calls i (.reading epoch) } row) : s.cas.Play row := by
      refine hrow.of_subset rfl (fun _ => id) (fun _ hva => ⟨hva, rfl⟩) rfl rfl
        (fun j row hj => ?_) rfl
      obtain rfl | hne := eq_or_ne j i
      · simp [CasPc.inPlay] at hj
      · simpa [hne] using hj
    refine ⟨List.forall_mem_cons.2 ⟨hb, h.epochs⟩, ?_, ?_, fun row hrow => ?_,
      fun row hrow => ?_, h.answers⟩
    · refine forall_update₂ (I := fun _ pc req => CallFit as s.now
        { s.cas.tiers with epochsRead := epoch :: s.cas.tiers.epochsRead } req pc)
        (fun j => ?_) hb
      exact (h.calls j).mono le_rfl rfl (.refl _)
    · refine forall_update (I := fun _ (req : Option (CasRequest (ClaimOp C) (ClaimRow C))) =>
        ∀ asking ∈ req, Begun as asking.op) h.asked ?_
      rintro asking ⟨⟩
      exact ⟨i, epoch, hmem⟩
    · exact h.sourced row (hpl row hrow)
    · exact h.lives row (hpl row hrow)
  | call i _ tiers _ hfo hm =>
    by_cases hkv : tiers.kv = s.cas.tiers.kv
    · exact h.call hfo hm hkv
    obtain ⟨epoch, rev, new, hcall, hr, rfl, hpc⟩ | ⟨r, -, rfl, -⟩ := hm.writes hkv
    · obtain ⟨heard, rfl⟩ := (hcall ▸ hm).eq_swap hkv
      have han : s.answered i (.swap heard) = s.answers := by
        simp [answered, hcall, CasPc.answer]
      rw [han]
      exact h.swap hcall hr hpc
    · cases hk
  | flush _ _ _ _ _ hm =>
    obtain ⟨hep, hkv, hc⟩ := hm.tiers
    refine h.of_play hep hm.epochsRead hc rfl rfl le_rfl (fun i => ?_)
      (fun row hrow => CasRun.play_of_flushMoves hm hrow) fun latest hl _ => ?_
    · exact (h.calls i).mono le_rfl hep (hkv ▸ .refl _)
    · exact hkv ▸ hl
  | recreate => cases hk
  | otherKey =>
    refine h.of_play rfl rfl rfl rfl rfl le_rfl
      (fun i => (h.calls i).mono le_rfl rfl (.foreign _)) (fun row hrow => ?_)
      fun _ hl _ => hl
    exact hrow.of_subset rfl (fun _ => id) (fun _ hva => ⟨hva, rfl⟩) rfl rfl
      (fun _ _ => id) rfl

end Steps

lemma inv_start {as : List (ExpiringAct (ClaimOp C) (ClaimRow C) P ι)} {now : Int} {epoch : Nat}
    {dur : P → Bool} : Inv as (.start now epoch none dur) := by
  have hl (row) (hrow : (CasRun.start epoch none dur :
      CasRun (ClaimRow C) P ι).Play row) : False := by
    obtain ⟨row, hnone, -⟩ := CasRun.play_start hrow
    cases hnone
  exact ⟨nofun, fun _ => trivial, nofun, fun row hrow => (hl row hrow).elim,
    fun row hrow => (hl row hrow).elim, nofun⟩

variable [DecidableEq C] [DecidableEq P] [DecidableEq ι]

end IdempotencyKeys

end ThreeTears
