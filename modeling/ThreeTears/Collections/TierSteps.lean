import ThreeTears.Collections.Tiers

/-!
# What a step of the tiers can do

The step function read as a relation, with one constructor for each outcome of an action. Every
invariant of the tiers is proved by cases on it.
-/

namespace ThreeTears

variable {P Row ι : Type*} [DecidableEq P] [DecidableEq ι]

namespace Tiers

/-- The outcomes of the actions, by the operation that moves and what it does to the tiers. -/
inductive Moves (s : Tiers P Row ι) (a : TierAct P Row ι) : Tiers P Row ι → Prop
  | foreign : Moves s a (s.setL2 s.l2.foreign)
  | lapse (ha : a = .lapse) : Moves s a (s.setL2 s.l2.lapse)
  | expire (p) : Moves s a (s.evictL1 p)
  | readBegin {i p} (hop : s.ops i = .idle) (hl1 : s.l1 p = none) :
    Moves s a ((s.setFence p (L1Fence.beginTicket (s.fence p) false).1).setOp i
      (.read p (L1Fence.beginTicket (s.fence p) false).2 .start))
  | readFound {i p t pc row} (hop : s.ops i = .read p t pc)
    (ha : a = .readLookup i true ∨ a = .readRelookup i true) (hrow : s.l2.value = some row) :
    Moves s a (s.setOp i (.read p t (.found row)))
  | readMissed {i p t} (held : Bool) (hop : s.ops i = .read p t .start) :
    Moves s a (s.setOp i (.read p t (.missed s.l2.revision held)))
  | readFetched {i p t revision held row} (hop : s.ops i = .read p t (.missed revision held))
    (hrow : s.l3 = some row) : Moves s a (s.setOp i (.read p t (.fetched row revision)))
  | readAbsent {i p t revision held} (hop : s.ops i = .read p t (.missed revision held)) :
    Moves s a (s.setOp i (.read p t (.absent revision held)))
  | readSeeded {i p t row} (hop : s.ops i = .read p t (.fetched row s.l2.revision)) :
    Moves s a ((s.setL2 (s.l2.push (some row))).setOp i (.read p t (.found row)))
  | readSuperseded {i p t row revision} (hop : s.ops i = .read p t (.fetched row revision)) :
    Moves s a (s.setOp i (.read p t .superseded))
  | readDropped {i p t revision held} (hop : s.ops i = .read p t (.absent revision held)) :
    Moves s a ((s.setL2 (s.l2.push none)).setOp i (.read p t .ending))
  | readCached {i p t row} (hop : s.ops i = .read p t (.found row)) (hnew : s.newest p t = true) :
    Moves s a ((s.setL1 p (some row)).setOp i (.read p t .ending))
  | readEnding {i p t pc} (hop : s.ops i = .read p t pc) :
    Moves s a (s.setOp i (.read p t .ending))
  | readEnd {i p t} (hop : s.ops i = .read p t .ending) :
    Moves s a ((s.setFence p (L1Fence.endTicket (s.fence p) t)).setOp i .idle)
  | stage {i} (p row) (hop : s.ops i = .idle) :
    Moves s a (((s.setFence p (L1Fence.changed (s.fence p))).setL1 p (some row)).setOp i
      (.save p .staged))
  | saveBegin {i p} (row) (hop : s.ops i = .idle ∨ s.ops i = .save p .staged) :
    Moves s a ((s.setFence p (L1Fence.beginTicket (s.fence p) true).1).setOp i
      (.save p (.begun row (L1Fence.beginTicket (s.fence p) true).2)))
  | saveRevision {i p row t} (hop : s.ops i = .save p (.begun row t)) :
    Moves s a (s.setOp i (.save p (.before row t s.l2.revision)))
  | saveCommit {i p row t revision} (hop : s.ops i = .save p (.before row t revision)) :
    Moves s a ((s.setL3 (some row)).setOp i (.save p (.committed row t revision)))
  | saveRefused {i p row t revision} (hop : s.ops i = .save p (.before row t revision)) :
    Moves s a ((s.evictL1 p).setOp i (.save p (.failed t)))
  | saveStored {i p sent t revision row} (hop : s.ops i = .save p (.committed sent t revision))
    (hrow : row = sent ∨ s.l3 = some row) : Moves s a (s.setOp i (.save p (.stored row t revision)))
  | saveUnread {i p sent t revision} (hop : s.ops i = .save p (.committed sent t revision)) :
    Moves s a (s.setOp i (.save p (.unread t)))
  | saveUpdated {i p row t} (hop : s.ops i = .save p (.stored row t s.l2.revision)) :
    Moves s a ((s.setL2 (s.l2.push (some row))).setOp i (.save p (.written row t true)))
  | saveUpdateRefused {i p row t revision} (hop : s.ops i = .save p (.stored row t revision)) :
    Moves s a (s.setOp i (.save p (.refused row t)))
  | saveDelete {i p row t} (hop : s.ops i = .save p (.refused row t)) :
    Moves s a ((s.setL2 (s.l2.push none)).setOp i (.save p (.written row t false)))
  | saveCached {i p row t} (hop : s.ops i = .save p (.written row t true))
    (hnew : s.newest p t = true) : Moves s a ((s.setL1 p (some row)).setOp i (.save p (.cached t)))
  | saveDropped {i p row t landed} (hop : s.ops i = .save p (.written row t landed)) :
    Moves s a ((s.evictL1 p).setOp i (.save p (.cached t)))
  | saveUnreadEvict {i p t} (hop : s.ops i = .save p (.unread t)) :
    Moves s a ((s.evictL1 p).setOp i (.save p (.unreadEvicted t)))
  | saveUnreadDelete {i p t} (hop : s.ops i = .save p (.unreadEvicted t)) :
    Moves s a ((s.setL2 (s.l2.push none)).setOp i (.save p (.cached t)))
  | saveEnd {i p t} (hop : s.ops i = .save p (.cached t)) :
    Moves s a ((s.setFence p (L1Fence.endTicket (s.fence p) t)).setOp i (.save p .announcing))
  | saveFailed {i p t} (hop : s.ops i = .save p (.failed t)) :
    Moves s a ((s.setFence p (L1Fence.endTicket (s.fence p) t)).setOp i .idle)
  | withdrawBegin {i} (p) (hop : s.ops i = .idle) : Moves s a (s.setOp i (.withdraw p true .begun))
  | withdrawFail {i p c} (hop : s.ops i = .withdraw p c .begun) : Moves s a (s.setOp i .idle)
  | withdrawCommit {i p} (row) (hop : s.ops i = .withdraw p true .begun) :
    Moves s a ((s.setL3 row).setOp i (.withdraw p true .changed))
  | invalidate {i} (p) (hop : s.ops i = .idle) : Moves s a (s.setOp i (.withdraw p false .changed))
  | withdrawEvict {i p c} (hop : s.ops i = .withdraw p c .changed) :
    Moves s a ((s.evictL1 p).setOp i (.withdraw p c .evicted))
  | withdrawFence {i p c} (hop : s.ops i = .withdraw p c .changed) :
    Moves s a ((s.setFence p (L1Fence.changed (s.fence p))).setOp i (.withdraw p c .fenced))
  | withdrawRow {i p c} (hop : s.ops i = .withdraw p c .fenced) :
    Moves s a ((s.setL1 p none).setOp i (.withdraw p c .evicted))
  | withdrawDelete {i p c} (hop : s.ops i = .withdraw p c .evicted) :
    Moves s a ((s.setL2 (s.l2.push none)).setOp i (.withdraw p c .announcing))
  | announceSave {i p} (hop : s.ops i = .save p .announcing) :
    Moves s a ((s.publish p).setOp i .idle)
  | announceWithdraw {i p c} (hop : s.ops i = .withdraw p c .announcing) :
    Moves s a ((s.publish p).setOp i .idle)
  | deliver {i p} (hop : s.ops i = .idle) (hmail : 0 < s.mail p) :
    Moves s a ((s.take p).setOp i (.peer p .handling))
  | peerMoves {i p pc} (pc') (hop : s.ops i = .peer p pc) : Moves s a (s.setOp i (.peer p pc'))
  | peerDelete {i p} (hop : s.ops i = .peer p .present) :
    Moves s a ((s.setL2 (s.l2.push none)).setOp i (.peer p .settled))
  | peerEvict {i p} (hop : s.ops i = .peer p .settled) : Moves s a ((s.evictL1 p).setOp i .idle)

variable {s s' : Tiers P Row ι} {a : TierAct P Row ι}

theorem moves_of_step (h : s.step a = some s') : s.Moves a s' := by
  cases a with
    (simp only [step, pullThrough, saveEntity, withdrawFromCaches, evictCollectionRow,
      Option.none_or, Option.or_none] at h; try split at h <;> try cases h)
  | foreign =>
    cases h
    exact .foreign
  | lapse =>
    cases h
    exact .lapse rfl
  | expire p =>
    cases h
    exact .expire p
  | readBegin => next hop hl1 => exact .readBegin hop hl1
  | readMarker => next hop => exact .readEnding hop
  | readLookup =>
    next hop =>
      split at h
      next hrow => cases h; exact .readFound hop (.inl rfl) hrow
      next => cases h; exact .readMissed _ hop
  | readFetch =>
    next hop =>
      split at h
      next hrow => cases h; exact .readFetched hop hrow
      next => cases h; exact .readAbsent hop
  | readSeed =>
    next hop =>
      split at h
      next hk =>
        obtain ⟨rfl, rfl⟩ := KvKey.update_eq_some_iff.1 hk
        cases h
        exact .readSeeded hop
      next => cases h; exact .readSuperseded hop
  | readRelookup =>
    next hop =>
      split at h
      next hrow => cases h; exact .readFound hop (.inr rfl) hrow
      next => cases h; exact .readEnding hop
  | readDrop =>
    next hop =>
      split at h
      next hk =>
        obtain ⟨-, rfl⟩ := KvKey.deleteAt_eq_some_iff.1 hk
        cases h
        exact .readDropped hop
      next => cases h; exact .readEnding hop
  | readAbsent => next hop => exact .readEnding hop
  | readCache =>
    next hop =>
      split_ifs at h with hnew
      · cases h; exact .readCached hop hnew
      · cases h; exact .readEnding hop
  | readEnd => next hop => exact .readEnd hop
  | stage _ p row => next hop => exact .stage p row hop
  | saveBegin _ _ row =>
    first
    | next hop => exact .saveBegin row (.inl hop)
    | next _ hop =>
      split_ifs at h with hq
      subst hq
      cases h
      exact .saveBegin row (.inr hop)
  | saveRevision => next hop => exact .saveRevision hop
  | saveCommit => next hop => exact .saveCommit hop
  | saveRefused => next hop => exact .saveRefused hop
  | saveAsSent => next hop => exact .saveStored hop (.inl rfl)
  | saveReadBack =>
    next row _ _ hop =>
      split at h
      next hrow => cases h; exact .saveStored hop (.inr hrow)
      next => cases h; exact .saveUnread hop
  | saveUpdate =>
    next hop =>
      split at h
      next hk =>
        obtain ⟨rfl, rfl⟩ := KvKey.update_eq_some_iff.1 hk
        cases h
        exact .saveUpdated hop
      next => cases h; exact .saveUpdateRefused hop
  | saveDelete => next hop => exact .saveDelete hop
  | saveCache =>
    next hop =>
      split_ifs at h with hnew
      · cases h
        obtain ⟨rfl, hnew⟩ := Bool.and_eq_true_iff.1 hnew
        exact .saveCached hop hnew
      · cases h; exact .saveDropped hop
  | saveUnreadEvict => next hop => exact .saveUnreadEvict hop
  | saveUnreadDelete => next hop => exact .saveUnreadDelete hop
  | saveEnd => next hop => first | exact .saveEnd hop | exact .saveFailed hop
  | withdrawBegin _ p => next hop => exact .withdrawBegin p hop
  | withdrawFail => next hop => exact .withdrawFail hop
  | withdrawCommit _ row => next hop => exact .withdrawCommit row hop
  | invalidate _ p => next hop => exact .invalidate p hop
  | withdrawEvict => next hop => exact .withdrawEvict hop
  | withdrawFence => next hop => exact .withdrawFence hop
  | withdrawRow => next hop => exact .withdrawRow hop
  | withdrawDelete => next hop => exact .withdrawDelete hop
  | announce => next hop => first | exact .announceSave hop | exact .announceWithdraw hop
  | deliver =>
    next hop =>
      split_ifs at h with hmail
      cases h
      exact .deliver hop hmail
  | peerProbe => next hop => split_ifs at h <;> cases h <;> exact .peerMoves _ hop
  | peerDelete => next hop => exact .peerDelete hop
  | peerEvict => next hop => exact .peerEvict hop

end Tiers

end ThreeTears
