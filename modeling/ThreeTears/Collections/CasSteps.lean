import ThreeTears.Collections.CasMutate

/-!
# What a step of a compare-and-swap call can do

Every step of a call, by the await it leaves and what it is told, with the facts it found.
-/

namespace ThreeTears

variable {V P : Type*} [DecidableEq V] [DecidableEq P]

def CasTiers.Fresh (s : CasTiers V P) : Option Nat → Prop
  | none => s.kv.value = none
  | some revision => s.kv.revision = revision

omit [DecidableEq V] [DecidableEq P] in
lemma CasTiers.write_eq_some_iff {s : CasTiers V P} {new : CasRow V} {rev : Option Nat}
    {kv : KvKey (CasRow V)} :
    s.write new rev = some kv ↔ s.Fresh rev ∧ kv = s.kv.push (some new) := by
  cases rev with
  | none => exact KvKey.create_eq_some_iff
  | some => exact KvKey.update_eq_some_iff

inductive CallMoves (s : CasTiers V P) :
    CasPc V → CallAct V P → CasTiers V P → CasPc V → Prop
  | begin {epoch : Nat} (h : epoch = s.epoch ∨ epoch ∈ s.epochsRead) :
    CallMoves s .idle (.begin epoch) { s with epochsRead := epoch :: s.epochsRead }
      (.reading epoch)
  | absent {epoch : Nat} {usable : Bool} (h : s.kv.value = none) :
    CallMoves s (.reading epoch) (.getEntry usable) s (.seeding epoch none)
  | found {epoch : Nat} {row : CasRow V} (h : s.kv.value = some row) :
    CallMoves s (.reading epoch) (.getEntry true) s
      (.mutating epoch (some s.kv.revision) (some row))
  | unusable {epoch : Nat} {row : CasRow V} (h : s.kv.value = some row) :
    CallMoves s (.reading epoch) (.getEntry false) s (.seeding epoch (some s.kv.revision))
  | regressed {epoch : Nat} {revision : Option Nat} {live : Bool} {stored : L2Order} :
    CallMoves s (.seeding epoch revision) (.fetchFromStore live) s
      (.regressed stored revision (if live then s.l3 else none))
  | seeded {epoch : Nat} {revision : Option Nat} {live : Bool} :
    CallMoves s (.seeding epoch revision) (.fetchFromStore live) s
      (.mutating epoch revision (if live then s.l3 else none))
  | refused {stored : L2Order} {revision : Option Nat} {row : Option (CasRow V)} :
    CallMoves s (.regressed stored revision row) .readEpoch s.readEpoch .idle
  | reread {stored : L2Order} {revision : Option Nat} {row : Option (CasRow V)} :
    CallMoves s (.regressed stored revision row) .readEpoch s.readEpoch
      (.mutating s.epoch revision row)
  | noop {epoch : Nat} {revision : Option Nat} {row : Option (CasRow V)} :
    CallMoves s (.mutating epoch revision row) (.mutate none) s .idle
  | mutated {epoch : Nat} {revision : Option Nat} {row : Option (CasRow V)} {value : V} :
    CallMoves s (.mutating epoch revision row) (.mutate (some value))
      { s with next := s.next + 1 }
      (.swapping epoch revision ⟨value, none, s.next :: (row.map CasRow.via).getD []⟩)
  | won {epoch : Nat} {revision : Option Nat} {new : CasRow V} (h : s.Fresh revision) :
    CallMoves s (.swapping epoch revision new) (.swap true)
      { s with kv := s.kv.push (some new) } (.won epoch new (s.kv.sequence + 1))
  | unheard {epoch : Nat} {revision : Option Nat} {new : CasRow V} (h : s.Fresh revision) :
    CallMoves s (.swapping epoch revision new) (.swap false)
      { s with kv := s.kv.push (some new) } (.swapping epoch revision new)
  | lost {epoch : Nat} {revision : Option Nat} {new : CasRow V} (h : ¬ s.Fresh revision) :
    CallMoves s (.swapping epoch revision new) (.swap true) s (.reading epoch)
  | ordered {epoch : Nat} {new : CasRow V} {revision : Nat} (h : s.epoch = epoch) :
    CallMoves s (.won epoch new revision) .readEpoch s.readEpoch
      (.persisting (withL2Order new ⟨epoch, revision⟩) revision)
  | moved {epoch : Nat} {new : CasRow V} {revision : Nat} (h : s.epoch ≠ epoch) :
    CallMoves s (.won epoch new revision) .readEpoch s.readEpoch
      (.readingBack epoch s.epoch new revision)
  | current {epoch current : Nat} {new : CasRow V} {revision : Nat}
    (h : s.entry = some (new.value, revision)) :
    CallMoves s (.readingBack epoch current new revision) .readBack s
      (.persisting (withL2Order new ⟨current, revision⟩) revision)
  | kept {epoch current : Nat} {new : CasRow V} {revision : Nat}
    (h : s.entry ≠ some (new.value, revision)) :
    CallMoves s (.readingBack epoch current new revision) .readBack s
      (.persisting (withL2Order new ⟨epoch, revision⟩) revision)
  | took {row : CasRow V} {revision : Nat} (h : OrderedCell.Takes CasRow.order s.l3 row) :
    CallMoves s (.persisting row revision) (.persist true) (s.saveOrderedToStore row)
      (.bumping row revision)
  | declined {row : CasRow V} {revision : Nat} (h : ¬ OrderedCell.Takes CasRow.order s.l3 row) :
    CallMoves s (.persisting row revision) (.persist true) (s.saveOrderedToStore row)
      (.confirming row revision)
  | unanswered {row : CasRow V} {revision : Nat} :
    CallMoves s (.persisting row revision) (.persist false) (s.saveOrderedToStore row)
      (.withdrawing revision)
  | deferred {row : CasRow V} {revision : Nat} {p : P} :
    CallMoves s (.persisting row revision) (.defer p)
      ((s.setBuf p ((s.bufs p).add CasRow.order () row)).succeed row (some p)) .idle
  | confirmed {row : CasRow V} {revision : Nat} (h : confirmsSuperseded s.l3 row = true) :
    CallMoves s (.confirming row revision) .confirm (s.succeed row none) .idle
  | unconfirmed {row : CasRow V} {revision : Nat} (h : ¬ confirmsSuperseded s.l3 row = true) :
    CallMoves s (.confirming row revision) .confirm s (.withdrawing revision)
  | returned {row : CasRow V} {revision : Nat} :
    CallMoves s (.bumping row revision) (.finish true) (s.succeed row none) .idle
  | unreturned {row : CasRow V} {revision : Nat} :
    CallMoves s (.bumping row revision) (.finish false) s .idle
  | withdrew {revision : Nat} (h : revision = 0 ∨ s.kv.revision = revision) :
    CallMoves s (.withdrawing revision) (.withdraw true) { s with kv := s.kv.push none } .idle
  | notWithdrawn {revision : Nat} {delivered : Bool} :
    CallMoves s (.withdrawing revision) (.withdraw delivered) s .idle
  | raised {pc pc' : CasPc V} (h : pc.raised = some pc') : CallMoves s pc .raise s pc'

variable {s s' : CasTiers V P} {a : CallAct V P} {pc pc' : CasPc V}

lemma callMoves_of_step (h : callStep s pc a = some (s', pc')) : CallMoves s pc a s' pc' := by
  unfold callStep at h
  split at h
  next =>
    split_ifs at h with hep
    cases h
    exact .begin hep
  next usable =>
    cases hva : s.kv.value with
    | none =>
      simp only [KvKey.getEntry, hva, Option.map_none, Option.some.injEq, Prod.mk.injEq] at h
      obtain ⟨rfl, rfl⟩ := h
      exact .absent hva
    | some =>
      simp only [KvKey.getEntry, hva, Option.map_some] at h
      cases usable
      all_goals cases h
      · exact .unusable hva
      · exact .found hva
  next =>
    split at h
    all_goals cases h
    · exact .regressed
    · exact .seeded
  next =>
    split_ifs at h
    all_goals cases h
    · exact .refused
    · exact .reread
  next result =>
    cases result
    all_goals cases h
    · exact .noop
    · exact .mutated
  next rev new heard =>
    cases hw : s.write new rev with
    | none =>
      cases heard
      all_goals simp only [hw, Bool.false_eq_true, if_false, if_true] at h
      all_goals cases h
      refine .lost fun hfr => ?_
      cases hw.symm.trans (CasTiers.write_eq_some_iff.2 ⟨hfr, rfl⟩)
    | some =>
      obtain ⟨hfr, rfl⟩ := CasTiers.write_eq_some_iff.1 hw
      simp only [hw] at h
      cases heard
      all_goals cases h
      · exact .unheard hfr
      · exact .won hfr
  next =>
    split_ifs at h with hep
    all_goals cases h
    · exact .ordered hep
    · exact .moved hep
  next =>
    split_ifs at h with he
    all_goals cases h
    · exact .current he
    · exact .kept he
  next heard =>
    cases heard
    · cases h
      exact .unanswered
    simp only [if_true] at h
    split_ifs at h with ht
    all_goals cases h
    · exact .took ht
    · exact .declined ht
  next =>
    cases h
    exact .deferred
  next =>
    split_ifs at h with hc
    all_goals cases h
    · exact .confirmed hc
    · exact .unconfirmed hc
  next returned =>
    cases returned
    all_goals cases h
    · exact .unreturned
    · exact .returned
  next rev delivered =>
    cases delivered with
    | false =>
      cases h
      exact .notWithdrawn
    | true =>
      cases hd : s.kv.deleteAt rev with
      | none =>
        simp only [hd, Option.getD_none, if_true] at h
        cases h
        exact .notWithdrawn
      | some =>
        obtain ⟨hrev, rfl⟩ := KvKey.deleteAt_eq_some_iff.1 hd
        simp only [hd, Option.getD_some, if_true] at h
        cases h
        exact .withdrew hrev
  next =>
    obtain ⟨pc'', hr, hq⟩ := Option.map_eq_some_iff.1 h
    cases hq
    exact .raised hr
  next => cases h

omit [DecidableEq V] in
lemma CallMoves.writes (hm : CallMoves s pc a s' pc') (hk : s'.kv ≠ s.kv) :
    (∃ epoch rev new, pc = .swapping epoch rev new ∧ s.Fresh rev ∧
      s' = { s with kv := s.kv.push (some new) } ∧
      (pc' = .won epoch new (s.kv.sequence + 1) ∨ pc' = .swapping epoch rev new)) ∨
    ∃ rev, pc = .withdrawing rev ∧ a = .withdraw true ∧
      (rev = 0 ∨ s.kv.revision = rev) ∧
      s' = { s with kv := s.kv.push none } ∧ pc' = .idle := by
  cases hm with
  | won hr => exact .inl ⟨_, _, _, rfl, hr, rfl, .inl rfl⟩
  | unheard hr => exact .inl ⟨_, _, _, rfl, hr, rfl, .inr rfl⟩
  | withdrew hrevision => exact .inr ⟨_, rfl, rfl, hrevision, rfl, rfl⟩
  | _ => exact absurd rfl hk

omit [DecidableEq V] in
lemma CallMoves.eq_swap {epoch : Nat} {rev : Option Nat} {new : CasRow V} {pc' : CasPc V}
    (hm : CallMoves s (.swapping epoch rev new) a s' pc') (hk : s'.kv ≠ s.kv) :
    ∃ heard, a = .swap heard := by
  cases hm with
  | won | unheard => exact ⟨_, rfl⟩
  | _ => exact absurd rfl hk

omit [DecidableEq V] in
lemma CallMoves.epochsRead
    (hm : CallMoves s pc a s' pc') (h : ∀ epoch ∈ s.epochsRead, epoch = s.epoch) :
    ∀ epoch ∈ s'.epochsRead, epoch = s'.epoch := by
  have hc : ∀ epoch ∈ s.epoch :: s.epochsRead, epoch = s.epoch := List.forall_mem_cons.2 ⟨rfl, h⟩
  cases hm with
  | begin he => exact List.forall_mem_cons.2 ⟨he.elim id (h _), h⟩
  | refused | reread | ordered | moved => exact hc
  | _ => exact h

/-- The steps of a flush of `p`'s buffer. -/
inductive FlushMoves (s : CasTiers V P) (p : P) :
    CasFlush V → CasFlushAct → CasTiers V P → CasFlush V → Prop
  | nothing : FlushMoves s p .idle .drain (s.setBuf p (s.bufs p).drain.1) .idle
  | drained {pw : PendingWrite (CasRow V)} (h : (s.bufs p).held () = some pw) :
    FlushMoves s p .idle .drain (s.setBuf p (s.bufs p).drain.1) (.persisting pw)
  | persisted {pw : PendingWrite (CasRow V)} :
    FlushMoves s p (.persisting pw) (.persist true) (s.saveOrderedToStore pw.data) (.persisted pw)
  | unanswered {pw : PendingWrite (CasRow V)} :
    FlushMoves s p (.persisting pw) (.persist false) (s.saveOrderedToStore pw.data)
      (.persisting pw)
  | acked {pw : PendingWrite (CasRow V)} :
    FlushMoves s p (.persisted pw) .ack (s.setBuf p ((s.bufs p).ack ())) .idle
  | reEnqueued {pw : PendingWrite (CasRow V)} :
    FlushMoves s p (.persisting pw) .reEnqueue
      (s.setBuf p ((s.bufs p).reEnqueue CasRow.order () pw.data (pw.retries + 1)).1) .idle
  | dropped {pw : PendingWrite (CasRow V)} :
    FlushMoves s p (.persisting pw) .drop (s.setBuf p ((s.bufs p).ack ())) .idle
  | cancelled {fl : CasFlush V} : FlushMoves s p fl .cancel s .idle

omit [DecidableEq V] in
lemma flushMoves_of_step {p : P} {fl fl' : CasFlush V} {a : CasFlushAct}
    (h : casFlushStep s p fl a = some (s', fl')) : FlushMoves s p fl a s' fl' := by
  unfold casFlushStep at h
  split at h
  next =>
    cases hd : (s.bufs p).drain.2 with (simp only [hd] at h; cases h)
    | nil => exact .nothing
    | cons e =>
      have he : e ∈ (s.bufs p).unclaimed := by
        show e ∈ (s.bufs p).drain.2
        rw [hd]
        exact List.mem_cons_self
      exact .drained (WriteBuffer.mem_unclaimed.1 he).1
  next heard =>
    cases heard
    all_goals cases h
    · exact .unanswered
    · exact .persisted
  next =>
    cases h
    exact .acked
  next =>
    cases h
    exact .reEnqueued
  next =>
    cases h
    exact .dropped
  next =>
    cases h
    exact .cancelled
  next =>
    cases h
    exact .cancelled
  next => cases h

end ThreeTears
