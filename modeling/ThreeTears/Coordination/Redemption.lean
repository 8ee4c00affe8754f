import ThreeTears.Collections.CasLineage
import ThreeTears.Collections.ExpiringCas
import ThreeTears.Lib.Families

/-!
# The redemption ledger

`RedemptionLedger.record_unique` creates the row of a key that no tier holds, and answers whether it
did. The swap is won in L2 before the row is in L3, so a bucket that is lost in between lets a
second call win.
-/

namespace ThreeTears

open OrderedCell

variable {ι : Type*}

def redemptionTable (ttl : Int) : CasTable Unit Int where
  expiresAt := id
  mutate _ now
    | none => some (now + ttl)
    | some _ => none
  defersL3Writes := false

def wasFirst (answer : Unit × Option Int) : Bool := answer.2.isSome

namespace CasPc

variable {V : Type*}

def Unseen : CasPc V → Prop
  | .regressed _ _ none | .mutating _ _ none | .swapping _ _ _ => True
  | _ => False

instance (pc : CasPc V) : Decidable pc.Unseen := by
  unfold CasPc.Unseen
  split <;> infer_instance

def held : CasPc V → Option Nat
  | .won _ _ revision | .readingBack _ _ _ revision | .persisting _ revision
  | .confirming _ revision | .bumping _ revision => some revision
  | _ => none

lemma held_of_raised {pc pc' : CasPc V} {rev : Nat} (h : pc.raised = some pc')
    (hw : rev ∈ pc'.withdraws) : rev ∈ pc.held := by
  cases pc <;> cases h <;> simp_all [withdraws, held]

/-- The call is past the read of an absent row, and has not returned. -/
def Exposed (pc : CasPc V) : Prop := pc.Unseen ∨ pc.held.isSome ∨ pc.withdraws.isSome
deriving Decidable

end CasPc

namespace Redemption

/-- The calls of `record_unique` for one key, at most a `ttl` before the deadline. -/
def InTime (ttl deadline : Int) (s : ExpiringRun Unit Int Empty ι) :
    ExpiringAct Unit Int Empty ι → Prop
  | .begin _ _ _ => deadline - ttl ≤ s.now ∧ s.now < deadline
  | .call _ _ => s.now < deadline
  | _ => True

instance (ttl deadline : Int) (s : ExpiringRun Unit Int Empty ι)
    (a : ExpiringAct Unit Int Empty ι) : Decidable (InTime ttl deadline s a) := by
  unfold InTime
  split <;> infer_instance

/-- L2 loses the key only while no call is between its read of an absent row and its return. -/
def KeepsBucket (s : ExpiringRun Unit Int Empty ι) : ExpiringAct Unit Int Empty ι → Prop
  | .recreate _ | .lapse => ∀ i, ¬ (s.cas.calls i).Exposed
  | _ => True

instance [Fintype ι] (s : ExpiringRun Unit Int Empty ι) (a : ExpiringAct Unit Int Empty ι) :
    Decidable (KeepsBucket s a) := by
  unfold KeepsBucket
  split <;> infer_instance

variable {ttl deadline now : Int} {floor : Nat} {s s' : ExpiringRun Unit Int Empty ι}
  {a : ExpiringAct Unit Int Empty ι}

def Stored (deadline : Int) (l3 : Option (CasRow Int)) : Prop := ∃ row ∈ l3, deadline ≤ row.value

def CallSound (deadline : Int) (floor : Nat) (tiers : CasTiers Int Empty) : CasPc Int → Prop
  | .idle => True
  | .reading epoch => floor ≤ epoch
  | .seeding epoch revision => floor ≤ epoch ∧ revision = none
  | .regressed _ revision row => row = none → revision = none
  | .mutating epoch revision row => floor ≤ epoch ∧ (row = none → revision = none)
  | .swapping epoch revision new => floor ≤ epoch ∧ revision = none ∧ deadline ≤ new.value
  | .won epoch new _ => floor ≤ epoch ∧ deadline ≤ new.value
  | .readingBack epoch current new _ => floor ≤ epoch ∧ floor ≤ current ∧ deadline ≤ new.value
  | .persisting row _ => deadline ≤ row.value ∧ ∃ order ∈ row.order, floor ≤ order.epoch
  | .confirming _ _ => Stored deadline tiers.l3
  | .bumping _ _ => Stored deadline tiers.l3
  | .withdrawing _ => True

/-- What is known of the tiers until the deadline. A row of L3 that is not remembered until then has
expired, of an earlier bucket. -/
structure TiersSound (deadline now : Int) (floor : Nat) (tiers : CasTiers Int Empty) : Prop where
  epoch : floor ≤ tiers.epoch
  epochsRead : ∀ epoch ∈ tiers.epochsRead, floor ≤ epoch
  entry : ∀ row ∈ tiers.kv.value, deadline ≤ row.value
  l3 : ∀ row ∈ tiers.l3, deadline ≤ row.value ∨
    row.value ≤ now ∧ ∀ order ∈ row.order, order.epoch < floor

/-- A swap that is held is the key's latest, and one that is withdrawn was won in this bucket. -/
def Owns (tiers : CasTiers Int Empty) (pc : CasPc Int) : Prop :=
  (∀ revision ∈ pc.held, tiers.kv.value.isSome ∧ tiers.kv.revision = revision) ∧
    ∀ revision ∈ pc.withdraws, 0 < revision ∧ revision ≤ tiers.kv.sequence

section Moves

variable {tiers : CasTiers Int Empty} {i : ι} {act : CallAct Int Empty} {pc : CasPc Int}

lemma isLive_of_le (ho : now < deadline) {row : CasRow Int} (hrow : deadline ≤ row.value) :
    (redemptionTable ttl).isLive now (some row) = true := by
  have hlt : now < row.value := by omega
  simpa [CasTable.isLive, CasTable.RowIsExpired, redemptionTable] using hlt

lemma TiersSound.stored_of_not_takes (h : TiersSound deadline now floor tiers) {row : CasRow Int}
    (ho : ∃ ord ∈ row.order, floor ≤ ord.epoch)
    (ht : ¬ Takes CasRow.order tiers.l3 row) : Stored deadline tiers.l3 := by
  obtain ⟨ord, ho, hl⟩ := ho
  obtain ⟨stored, ord', hl3, ho', hle⟩ := atLeast_of_not_takes ht ho
  refine ⟨stored, hl3, (h.l3 stored hl3).resolve_right fun hold => ?_⟩
  have hlt : ord'.epoch < ord.epoch := lt_of_lt_of_le (hold.2 ord' ho') hl
  exact not_lt.2 hle (L2Order.lt_iff.2 (.inl hlt))

lemma callSound_of_raised {pc pc' : CasPc Int} (h : pc.raised = some pc') :
    CallSound deadline floor tiers pc' := by
  cases pc <;> cases h <;> trivial

lemma callSound_of_moves (hno : s.now < deadline) (ht : TiersSound deadline s.now floor s.cas.tiers)
    (hcall : CallSound deadline floor s.cas.tiers (s.cas.calls i))
    (hrequest : ∀ req ∈ s.requests i, deadline - ttl ≤ req.clock)
    (ho : s.Follows (redemptionTable ttl) i act)
    (hmv : CallMoves s.cas.tiers (s.cas.calls i) act tiers pc) :
    CallSound deadline floor tiers pc := by
  generalize hpc : s.cas.calls i = before at hcall hmv
  cases hmv with
  | begin => cases ho
  | absent => exact ⟨hcall, rfl⟩
  | found => exact ⟨hcall, by simp⟩
  | unusable hva =>
    simp only [ExpiringRun.Follows, hva] at ho
    rw [isLive_of_le hno (ht.entry _ hva)] at ho
    cases ho
  | regressed => exact fun _ => hcall.2
  | seeded => exact ⟨hcall.1, fun _ => hcall.2⟩
  | refused | noop | unanswered => trivial
  | reread => exact ⟨ht.epoch, hcall⟩
  | @mutated epoch rev row value =>
    simp only [ExpiringRun.Follows, ExpiringRun.callback, hpc] at ho
    split at ho
    next req _ _ _ he hq =>
      cases hq
      cases row with try cases ho
      | none =>
        have hc := hrequest req he
        have hva : deadline ≤ req.clock + ttl := by omega
        exact ⟨hcall.1, hcall.2 rfl, hva⟩
    next => cases ho
  | won => exact ⟨hcall.1, hcall.2.2⟩
  | unheard => exact hcall
  | lost => exact hcall.1
  | ordered => exact ⟨hcall.2, _, rfl, hcall.1⟩
  | moved => exact ⟨hcall.1, ht.epoch, hcall.2⟩
  | current => exact ⟨hcall.2.2, _, rfl, hcall.2.1⟩
  | kept => exact ⟨hcall.2.2, _, rfl, hcall.1⟩
  | took hk => exact ⟨_, if_pos hk, hcall.1⟩
  | declined hk =>
    obtain ⟨row, hrow, hle⟩ := ht.stored_of_not_takes hcall.2 hk
    exact ⟨row, (if_neg hk).trans hrow, hle⟩
  | @deferred _ _ p => exact p.elim
  | confirmed | unconfirmed | returned | unreturned | withdrew | notWithdrawn => trivial
  | raised hr => exact callSound_of_raised hr

lemma withdraws_of_moves (hmv : CallMoves s.cas.tiers (s.cas.calls i) act tiers pc) {rev : Nat}
    (hw : rev ∈ pc.withdraws) : rev ∈ (s.cas.calls i).held ∧ tiers.kv = s.cas.tiers.kv := by
  generalize s.cas.calls i = before at hmv ⊢
  cases hmv with
  | unanswered | unconfirmed => exact ⟨hw, rfl⟩
  | raised hr => exact ⟨CasPc.held_of_raised hr hw, rfl⟩
  | _ => cases hw

lemma unseen_of_moves (hno : s.now < deadline) (ho : s.Follows (redemptionTable ttl) i act)
    (hmv : CallMoves s.cas.tiers (s.cas.calls i) act tiers pc)
    (ht : Stored deadline s.cas.tiers.l3) (hu : pc.Unseen) : (s.cas.calls i).Unseen := by
  have hlive : (redemptionTable ttl).isLive s.now s.cas.tiers.l3 = true := by
    obtain ⟨row, hrow, hle⟩ := ht
    rw [Option.mem_def.1 hrow]
    exact isLive_of_le hno hle
  obtain ⟨stored, hl3, -⟩ := ht
  generalize hpc : s.cas.calls i = before at hmv ⊢
  cases hmv with
  | regressed | seeded =>
    simp only [ExpiringRun.Follows, hlive] at ho
    simp [ho, Option.mem_def.1 hl3, CasPc.Unseen] at hu
  | @reread _ _ row => cases row <;> trivial
  | @mutated _ _ row _ =>
    cases row with
    | none => trivial
    | some row =>
      simp only [ExpiringRun.Follows, ExpiringRun.callback, hpc] at ho
      split at ho
      next he =>
        cases he
        cases ho
      next => cases ho
  | unheard => trivial
  | @raised before _ hr => cases before <;> cases hr <;> cases hu
  | _ => cases hu

variable (hcall : CallSound deadline floor s.cas.tiers (s.cas.calls i))
  (hmv : CallMoves s.cas.tiers (s.cas.calls i) act tiers pc)
include hcall hmv

lemma l3_of_moves :
    tiers.l3 = s.cas.tiers.l3 ∨ ∃ row, tiers.l3 = some row ∧ deadline ≤ row.value := by
  generalize s.cas.calls i = before at hcall hmv
  have hpe : ∀ row : CasRow Int, deadline ≤ row.value →
      (s.cas.tiers.saveOrderedToStore row).l3 = s.cas.tiers.l3 ∨
        ∃ row', (s.cas.tiers.saveOrderedToStore row).l3 = some row' ∧ deadline ≤ row'.value := by
    intro row hrow
    obtain he | he := upsert_eq_or CasRow.order s.cas.tiers.l3 row
    · exact .inr ⟨row, he, hrow⟩
    · exact .inl he
  cases hmv with
  | took | declined | unanswered => exact hpe _ hcall.1
  | @deferred _ _ p => exact p.elim
  | _ => exact .inl rfl

lemma stored_of_moves (ht : Stored deadline s.cas.tiers.l3) : Stored deadline tiers.l3 := by
  obtain he | ⟨row, hrow, hle⟩ := l3_of_moves hcall hmv
  · exact he ▸ ht
  · exact ⟨row, hrow, hle⟩

lemma tiersSound_of_moves (ht : TiersSound deadline s.now floor s.cas.tiers)
    (ho : s.Follows (redemptionTable ttl) i act) :
    TiersSound deadline s.now floor tiers where
  epoch := by
    rw [hmv.epoch]
    exact ht.epoch
  epochsRead := by
    have hread : ∀ epoch ∈ s.cas.tiers.readEpoch.epochsRead, floor ≤ epoch :=
      List.forall_mem_cons.2 ⟨ht.epoch, ht.epochsRead⟩
    generalize s.cas.calls i = before at hmv
    cases hmv with
    | begin => cases ho
    | refused | reread | ordered | moved => exact hread
    | _ => exact ht.epochsRead
  entry := by
    intro row hrow
    by_cases hk : tiers.kv = s.cas.tiers.kv
    · exact ht.entry row (hk ▸ hrow)
    obtain ⟨epoch, rev, new, hpc, -, rfl, -⟩ | ⟨_, _, _, _, rfl, _⟩ := hmv.writes hk
    · cases hrow
      rw [hpc] at hcall
      exact hcall.2.2
    · cases hrow
  l3 := by
    intro row hrow
    obtain he | ⟨row', he, hle⟩ := l3_of_moves hcall hmv
    · exact ht.l3 row (he ▸ hrow)
    cases he.symm.trans hrow
    exact .inl hle

lemma held_of_moves {rev : Nat}
    (hheld : rev ∈ pc.held) : rev ∈ (s.cas.calls i).held ∧ tiers.kv = s.cas.tiers.kv ∨
      (s.cas.calls i).Unseen ∧ s.cas.tiers.kv.value = none ∧ tiers.kv.value.isSome ∧
        tiers.kv.revision = rev ∧ rev = s.cas.tiers.kv.sequence + 1 := by
  generalize s.cas.calls i = before at hcall hmv ⊢
  cases hmv with
  | won hfr =>
    cases hheld
    rw [hcall.2.1] at hfr
    exact .inr ⟨trivial, hfr, rfl, rfl, rfl⟩
  | ordered | moved | current | kept | took | declined => exact .inl ⟨hheld, rfl⟩
  | @raised before _ hr => cases before <;> cases hr <;> cases hheld
  | _ => cases hheld

lemma answer_of_moves {va : Int}
    (han : (s.cas.calls i).answer s.cas.tiers.l3 act = some (some va)) :
    (s.cas.calls i).held.isSome ∧ Stored deadline s.cas.tiers.l3 ∧ pc = .idle ∧
      tiers.kv = s.cas.tiers.kv := by
  generalize s.cas.calls i = before at hcall hmv han ⊢
  cases hmv with
  | confirmed | returned => exact ⟨rfl, hcall, rfl, rfl⟩
  | @deferred _ _ p => exact p.elim
  | unconfirmed hc => simp [CasPc.answer, hc] at han
  | _ => simp [CasPc.answer] at han

end Moves

end Redemption

end ThreeTears
