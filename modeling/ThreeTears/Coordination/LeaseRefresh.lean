import ThreeTears.Coordination.LeaseOwnership

/-!
# Refreshing over unanswered writes

A handle recognises its own entry at the revision it knows, or as the one write it remembers to have
sent without an answer. While no second write goes unanswered as long as the first may be or become
the entry, no refresh takes the entry for another holder's.
-/

namespace ThreeTears

open Function List Option

variable {T ι : Type*}

/-- Every write on its way names an earlier revision than `n`. -/
def Below (late : List (ι × KvRequest (LeaseEntry T ι))) (n : Nat) : Prop :=
  ∀ sent ∈ late, ∃ w r, sent.2 = .update w r ∧ r < n

/-- The entry is gone, or is at `revision` with at most writes of `own` on their way to it, or is
`own`. -/
inductive Tracks (kv : KvKey (LeaseEntry T ι)) (late : List (ι × KvRequest (LeaseEntry T ι)))
    (revision : Nat) (own : Option (Envelope T)) : Prop
  | gone (hnone : kv.value = none) (hrev : revision < kv.revision)
      (hlate : Below late kv.revision)
  | still (hsome : kv.value.isSome = true) (hrev : kv.revision = revision)
      (hlate : ∀ sent ∈ late, ∃ w r, sent.2 = .update w r ∧
        (r < revision ∨ r = revision ∧ ∃ p, own = some p ∧ w.envelope = some p))
  | landed (v : LeaseEntry T ι) (p : Envelope T) (hv : kv.value = some v) (hown : own = some p)
      (henv : v.envelope = some p) (hrev : revision < kv.revision) (hlate : Below late kv.revision)

variable {kv kv' : KvKey (LeaseEntry T ι)} {late late' : List (ι × KvRequest (LeaseEntry T ι))}
  {revision : Nat} {own : Option (Envelope T)} {sent : ι × KvRequest (LeaseEntry T ι)}
  {answer : KvAnswer (LeaseEntry T ι)}

lemma Below.mono {n m : Nat} (h : Below late n) (hle : n ≤ m) : Below late m := by
  intro sent he
  obtain ⟨w, r, hq, hr⟩ := h sent he
  exact ⟨w, r, hq, lt_of_lt_of_le hr hle⟩

namespace Tracks

variable (h : Tracks kv late revision own)
include h

lemma revision_le : revision ≤ kv.revision := by
  cases h with
  | gone _ hrev | landed _ _ _ _ _ hrev => exact le_of_lt hrev
  | still _ hrev => exact Nat.le_of_eq hrev.symm

lemma revision_le_sequence : revision ≤ kv.sequence :=
  le_trans h.revision_le kv.revision_le

lemma below : Below late (kv.sequence + 1) := by
  have hle := Nat.le_succ_of_le kv.revision_le
  cases h with
  | gone _ _ hlate | landed _ _ _ _ _ _ hlate => exact hlate.mono hle
  | still _ _ hlate =>
    intro sent hse
    obtain ⟨w, r, he, hr | ⟨hr, -⟩⟩ := hlate sent hse
    · exact ⟨w, r, he, by omega⟩
    · exact ⟨w, r, he, by have := kv.revision_le; omega⟩

lemma below_of_ne (he : kv.revision ≠ revision) : Below late kv.revision := by
  cases h with
  | gone _ _ hlate | landed _ _ _ _ _ _ hlate => exact hlate
  | still _ hrev => exact absurd hrev he

omit h in
lemma below_of_none (h : Tracks kv late revision none) : Below late kv.revision := by
  cases h with
  | gone _ _ hlate => exact hlate
  | landed _ _ _ hown => cases hown
  | still _ hrev hlate =>
    intro sent he
    obtain ⟨w, r, hq, hr | ⟨-, p, hown, -⟩⟩ := hlate sent he
    · exact ⟨w, r, hq, hrev ▸ hr⟩
    · cases hown

omit h in
lemma value_eq_none (h : Tracks kv late revision none) (he : kv.revision ≠ revision) :
    kv.value = none := by
  cases h with
  | gone hnone => exact hnone
  | still _ hrev => exact absurd hrev he
  | landed _ _ _ hown => cases hown

lemma subset (hu : late' ⊆ late) : Tracks kv late' revision own := by
  cases h with
  | gone hnone hrev hlate => exact .gone hnone hrev fun sent he => hlate sent (hu he)
  | still hsome hrev hlate => exact .still hsome hrev fun sent he => hlate sent (hu he)
  | landed v p hv hown henv hrev hlate =>
    exact .landed v p hv hown henv hrev fun sent he => hlate sent (hu he)

omit h in
lemma of_below {v : LeaseEntry T ι} (hv : kv.value = some v) (h : Below late kv.revision) :
    Tracks kv late kv.revision none := by
  refine .still (by simp [hv]) rfl fun sent he => ?_
  obtain ⟨w, r, hq, hr⟩ := h sent he
  exact ⟨w, r, hq, .inl hr⟩

lemma lapse : Tracks (kv.push none) late revision own :=
  .gone rfl (Nat.lt_succ_of_le h.revision_le_sequence) h.below

end Tracks

lemma Below.serves_eq (h : Below late kv.revision) (hsn : sent ∈ late)
    (he : kv.Serves sent.2 kv' answer) : kv' = kv := by
  obtain ⟨w, r, hq, hr⟩ := h sent hsn
  rw [hq] at he
  cases he with
  | update _ _ hrev => exact absurd hrev (ne_of_gt hr)
  | unwritten => rfl

/-- The key may move on under a call only so far that the call can still tell. -/
structure Shifts (kv : KvKey (LeaseEntry T ι)) (late : List (ι × KvRequest (LeaseEntry T ι)))
    (kv' : KvKey (LeaseEntry T ι)) (late' : List (ι × KvRequest (LeaseEntry T ι))) : Prop where
  tracks : ∀ revision own, Tracks kv late revision own → Tracks kv' late' revision own
  le : kv.revision ≤ kv'.revision
  quiet : Below late kv.revision → kv' = kv ∨ kv'.value = none

lemma shifts_lapse : Shifts kv late (kv.push none) late where
  tracks _ _ h := h.lapse
  le := Nat.le_succ_of_le kv.revision_le
  quiet _ := .inr rfl

lemma shifts_land {n : Nat} (hn : late[n]? = some sent) (he : kv.Serves sent.2 kv' answer) :
    Shifts kv late kv' (late.eraseIdx n) := by
  have hsn := mem_of_getElem? hn
  refine ⟨fun revision own h => ?_, he.revision_le, fun h => .inl (h.serves_eq hsn he)⟩
  refine Tracks.subset ?_ fun sent' hs' => mem_of_mem_eraseIdx hs'
  have hb := h.below
  cases h with
  | gone hnone hrev hlate =>
    cases hlate.serves_eq hsn he
    exact .gone hnone hrev hlate
  | landed v p hv hown henv hrev hlate =>
    cases hlate.serves_eq hsn he
    exact .landed v p hv hown henv hrev hlate
  | still hsome hrev hlate =>
    obtain ⟨w, r, hq, hr⟩ := hlate sent hsn
    rw [hq] at he
    cases he with
    | unwritten => exact .still hsome hrev hlate
    | update =>
      obtain hlt | ⟨-, p, hown, henv⟩ := hr
      · omega
      · exact .landed w p rfl hown henv (by have := kv.revision_le; simp; omega) hb

/-! ### Where a refresh stands -/

/-- A swap of `payload` at `revision`, sent while `unanswered` was. -/
def SentTracks (kv : KvKey (LeaseEntry T ι)) (late : List (ι × KvRequest (LeaseEntry T ι)))
    (payload : Envelope T) (unanswered : Option (Envelope T)) (revision : Nat) :
    Option (KvAnswer (LeaseEntry T ι)) → Prop
  | none => Tracks kv late revision unanswered
  | some (.written none) => Tracks kv late revision unanswered ∧ kv.revision ≠ revision
  | some (.written (some r)) => revision < r ∧ Tracks kv late r none ∧
      ∀ v, kv.value = some v → v.envelope = some payload
  | some _ => False

def ReadTracks (kv : KvKey (LeaseEntry T ι)) (late : List (ι × KvRequest (LeaseEntry T ι)))
    (h : LeaseHandle T) : Option (KvAnswer (LeaseEntry T ι)) → Prop
  | none | some (.entry none) => True
  | some (.entry (some (v, observed))) => observed = h.revision ∨
      (∃ p, h.inFlight = some p ∧ v.envelope = some p) ∧ Tracks kv late observed none
  | some _ => False

def RereadTracks (kv : KvKey (LeaseEntry T ι)) (late : List (ι × KvRequest (LeaseEntry T ι)))
    (unanswered : Envelope T) : Option (KvAnswer (LeaseEntry T ι)) → Prop
  | none => True
  | some (.entry none) => kv.value = none
  | some (.entry (some (v, observed))) =>
    v.envelope = some unanswered ∧ Tracks kv late observed none
  | some _ => False

def RefreshTracks (kv : KvKey (LeaseEntry T ι)) (late : List (ι × KvRequest (LeaseEntry T ι)))
    (h : LeaseHandle T) (answer : Option (KvAnswer (LeaseEntry T ι))) : RefreshPc T → Prop
  | .reading => Tracks kv late h.revision h.inFlight ∧ ReadTracks kv late h answer
  | .swapping payload _ unanswered revision => h.inFlight = some payload ∧ revision = h.revision ∧
      SentTracks kv late payload unanswered revision answer
  | .rereading _ _ unanswered => h.inFlight = some unanswered ∧
      Tracks kv late h.revision (some unanswered) ∧ kv.revision ≠ h.revision ∧
      RereadTracks kv late unanswered answer
  | .reswapping payload _ revision => h.inFlight = some payload ∧ revision = h.revision ∧
      SentTracks kv late payload none revision answer

variable {payload unanswered : Envelope T} {un : Option (Envelope T)} {pc : RefreshPc T}

section Shifts

variable {h : LeaseHandle T} {answer : Option (KvAnswer (LeaseEntry T ι))}

lemma Shifts.ne (hs : Shifts kv late kv' late') {own : Option (Envelope T)}
    (ht : Tracks kv late revision own) (he : kv.revision ≠ revision) : kv'.revision ≠ revision := by
  have hle := ht.revision_le
  have hl' := hs.le
  omega

lemma SentTracks.shifts (ht : SentTracks kv late payload un revision answer)
    (hs : Shifts kv late kv' late') : SentTracks kv' late' payload un revision answer := by
  unfold SentTracks at ht ⊢
  split at ht
  · exact hs.tracks _ _ ht
  · exact ⟨hs.tracks _ _ ht.1, hs.ne ht.1 ht.2⟩
  · refine ⟨ht.1, hs.tracks _ _ ht.2.1, fun v hv => ?_⟩
    obtain rfl | hnone := hs.quiet ht.2.1.below_of_none
    · exact ht.2.2 v hv
    rw [hnone] at hv
    cases hv
  · exact ht

lemma ReadTracks.shifts (ht : ReadTracks kv late h answer) (hs : Shifts kv late kv' late') :
    ReadTracks kv' late' h answer := by
  unfold ReadTracks at ht ⊢
  split at ht
  · trivial
  · trivial
  · exact ht.imp_right fun ⟨hp, hr⟩ => ⟨hp, hs.tracks _ _ hr⟩
  · exact ht

lemma RereadTracks.shifts (ht : RereadTracks kv late unanswered answer)
    (hs : Shifts kv late kv' late') (hb : Below late kv.revision) :
    RereadTracks kv' late' unanswered answer := by
  unfold RereadTracks at ht ⊢
  split at ht
  · trivial
  · obtain rfl | hnone := hs.quiet hb
    · exact ht
    · exact hnone
  · exact ⟨ht.1, hs.tracks _ _ ht.2⟩
  · exact ht

lemma RefreshTracks.shifts (ht : RefreshTracks kv late h answer pc)
    (hs : Shifts kv late kv' late') : RefreshTracks kv' late' h answer pc := by
  cases pc with
  | reading => exact ⟨hs.tracks _ _ ht.1, ht.2.shifts hs⟩
  | swapping payload ttl unanswered revision | reswapping payload ttl revision =>
    exact ⟨ht.1, ht.2.1, ht.2.2.shifts hs⟩
  | rereading =>
    obtain ⟨hin, hr, he, hread⟩ := ht
    exact ⟨hin, hs.tracks _ _ hr, hs.ne hr he, hread.shifts hs (hr.below_of_ne he)⟩

end Shifts

/-! ### Steps of a refresh -/

section Steps

variable {h h' : LeaseHandle T} {i : ι}

lemma SentTracks.serves (ht : Tracks kv late revision un)
    (he : kv.Serves (.update ⟨some payload, some i⟩ revision) kv' answer) :
    SentTracks kv' late payload un revision (some answer) := by
  cases he with
  | unwritten _ _ hne => exact ⟨ht, hne⟩
  | update =>
    refine ⟨Nat.lt_succ_of_le ht.revision_le_sequence, Tracks.of_below rfl ht.below, ?_⟩
    rintro v ⟨⟩
    rfl

lemma ReadTracks.serves (ht : Tracks kv late h.revision h.inFlight) :
    ReadTracks kv late h (some (.entry kv.getEntry)) := by
  cases ht with
  | gone hnone => simp [ReadTracks, KvKey.getEntry, hnone]
  | still hsome hrev =>
    obtain ⟨v, hv⟩ := isSome_iff_exists.1 hsome
    simp [ReadTracks, KvKey.getEntry, hv, hrev]
  | landed _ p hv hown henv _ hlate =>
    simp only [KvKey.getEntry, hv, map_some]
    exact .inr ⟨⟨p, hown, henv⟩, Tracks.of_below hv hlate⟩

lemma RereadTracks.serves (ht : Tracks kv late revision (some unanswered))
    (he : kv.revision ≠ revision) :
    RereadTracks kv late unanswered (some (.entry kv.getEntry)) := by
  cases ht with
  | gone hnone => simp [RereadTracks, KvKey.getEntry, hnone]
  | still _ hrev => exact absurd hrev he
  | landed _ _ hv hown henv _ hlate =>
    cases hown
    simp only [KvKey.getEntry, hv, map_some]
    exact ⟨henv, Tracks.of_below hv hlate⟩

lemma RefreshTracks.serves (ht : RefreshTracks kv late h none pc)
    (he : kv.Serves (pc.request i) kv' answer) : RefreshTracks kv' late h (some answer) pc := by
  cases pc with
  | reading =>
    cases he
    exact ⟨ht.1, ReadTracks.serves ht.1⟩
  | swapping payload ttl un revision | reswapping payload ttl revision =>
    exact ⟨ht.1, ht.2.1, SentTracks.serves ht.2.2 he⟩
  | rereading =>
    cases he
    exact ⟨ht.1, ht.2.1, ht.2.2.1, RereadTracks.serves ht.2.1 ht.2.2.1⟩

/-- A swap that is given up is the one write that the handle remembers, as long as no earlier one is
or may become the entry. -/
lemma SentTracks.giveUp {answer : Option (KvAnswer (LeaseEntry T ι))}
    (ht : SentTracks kv late payload un revision answer)
    (hc : ∀ p, un = some p → (∃ r, answer = some (.written (some r))) ∨ kv.value = none ∨
      kv.revision = revision ∧ ∀ sent ∈ late, sent.2.expects ≠ some revision)
    (hlate : late' = late ∨
      answer = none ∧ late' = late ++ [(i, .update ⟨some payload, some i⟩ revision)]) :
    Tracks kv late' revision (some payload) := by
  have hd : ∀ n, revision < n → Below late n → Below late' n := by
    intro n hn hb sent he
    obtain rfl | ⟨-, rfl⟩ := hlate
    · exact hb sent he
    obtain he | he := mem_append.1 he
    · exact hb sent he
    cases mem_singleton.1 he
    exact ⟨_, _, rfl, hn⟩
  unfold SentTracks at ht
  split at ht
  · cases ht with
    | gone hnone hrev hb => exact .gone hnone hrev (hd _ hrev hb)
    | landed _ p hv hown =>
      obtain ⟨r, hr⟩ | hnone | ⟨hq, -⟩ := hc p hown
      · cases hr
      · rw [hv] at hnone
        cases hnone
      · omega
    | still hsome hrev hold =>
      refine .still hsome hrev fun sent he => ?_
      have hlt : ∀ sent ∈ late, ∃ w r, sent.2 = .update w r ∧ r < revision := by
        intro sent he
        obtain ⟨w, r, hq, hr | ⟨hr, p, hown, -⟩⟩ := hold sent he
        · exact ⟨w, r, hq, hr⟩
        obtain ⟨r', hr'⟩ | hnone | ⟨-, ho⟩ := hc p hown
        · cases hr'
        · simp [hnone] at hsome
        · exact absurd (by simp [hq, hr, KvRequest.expects]) (ho sent he)
      obtain rfl | ⟨-, rfl⟩ := hlate
      · obtain ⟨w, r, hq, hr⟩ := hlt sent he
        exact ⟨w, r, hq, .inl hr⟩
      obtain he | he := mem_append.1 he
      · obtain ⟨w, r, hq, hr⟩ := hlt sent he
        exact ⟨w, r, hq, .inl hr⟩
      cases mem_singleton.1 he
      exact ⟨_, _, rfl, .inr ⟨rfl, payload, rfl, rfl⟩⟩
  · obtain ⟨ht, hne⟩ := ht
    have hb := ht.below_of_ne hne
    have hlt := Nat.lt_of_le_of_ne ht.revision_le (Ne.symm hne)
    cases hun : un with
    | none => exact .gone ((hun ▸ ht).value_eq_none hne) hlt (hd _ hlt hb)
    | some p =>
      obtain ⟨r, hr⟩ | hnone | ⟨hq, -⟩ := hc p hun
      · cases hr
      · exact .gone hnone hlt (hd _ hlt hb)
      · exact absurd hq hne
  · obtain ⟨hlt, ht, hva⟩ := ht
    have hl' := lt_of_lt_of_le hlt ht.revision_le
    have hb := hd _ hl' ht.below_of_none
    cases hv : kv.value with
    | none => exact .gone hv hl' hb
    | some v => exact .landed v payload hv rfl (hva v hv) hl' hb
  · exact ht.elim

lemma RefreshTracks.giveUp {answer : Option (KvAnswer (LeaseEntry T ι))}
    (ht : RefreshTracks kv late h answer pc)
    (hc : ∀ payload ttl p revision, pc = .swapping payload ttl (some p) revision →
      (∃ r, answer = some (.written (some r))) ∨ kv.value = none ∨
        kv.revision = revision ∧ ∀ sent ∈ late, sent.2.expects ≠ some revision)
    (hlate : late' = late ∨
      answer = none ∧ (pc.request i).isWrite = true ∧ late' = late ++ [(i, pc.request i)]) :
    Tracks kv late' h.revision h.inFlight := by
  cases pc with
  | reading =>
    obtain rfl : late' = late := by simpa [RefreshPc.request, KvRequest.isWrite] using hlate
    exact ht.1
  | rereading =>
    obtain rfl : late' = late := by simpa [RefreshPc.request, KvRequest.isWrite] using hlate
    rw [ht.1]
    exact ht.2.1
  | swapping payload ttl =>
    obtain ⟨hin, rfl, he⟩ := ht
    rw [hin]
    refine he.giveUp (fun p hun => ?_) (hlate.imp_right fun hlate => ⟨hlate.1, hlate.2.2⟩)
    exact hc payload ttl p h.revision (by rw [hun])
  | reswapping =>
    obtain ⟨hin, rfl, he⟩ := ht
    rw [hin]
    exact he.giveUp (by simp) (hlate.imp_right fun hlate => ⟨hlate.1, hlate.2.2⟩)

/-- What `refresh_handle` leaves behind when it goes on. -/
def NextTracks (kv : KvKey (LeaseEntry T ι)) (late : List (ι × KvRequest (LeaseEntry T ι)))
    (holder : T) (h : LeaseHandle T) : Next (RefreshPc T) Unit → Prop
  | .ask pc => RefreshTracks kv late h none pc ∧
      ∀ payload ttl, pc.prepared = some (payload, ttl) → payload.holder = holder
  | .returned _ => Tracks kv late h.revision h.inFlight
  | .raised reason => Tracks kv late h.revision h.inFlight ∧ (reason = .taken → kv.value = none)

variable [DecidableEq T] {holder : T} {now : Int} {call : RefreshCall}
  {next : Next (RefreshPc T) Unit}

/-- A refresh reports its lease taken only when the entry is gone. -/
theorem RefreshTracks.refreshHandle (ht : RefreshTracks kv late h (some answer) pc)
    (hpa : ∀ payload ttl, pc.prepared = some (payload, ttl) → payload.holder = holder)
    (hread : ∀ v r, answer = .entry (some (v, r)) → v.HeldBy holder)
    (he : refreshHandle holder now call h pc answer = some (h', next)) :
    h'.held = h.held ∧ NextTracks kv late holder h' next := by
  unfold ThreeTears.refreshHandle at he
  split at he
  case h_1 =>
    cases he
    exact ⟨rfl, ht.1, by simp⟩
  case h_2 v observed =>
    obtain ⟨env, henv, hholder⟩ := hread v observed rfl
    simp only [henv, hholder, ne_eq, not_true_eq_false, if_false, Option.some.injEq,
      Prod.mk.injEq] at he
    obtain ⟨rfl, rfl⟩ := he
    refine ⟨rfl, ⟨rfl, rfl, ?_⟩, ?_⟩
    · simp only [LeaseHandle.fence]
      split_ifs with hd
      · obtain hsa | ⟨-, htr⟩ := ht.2
        · exact absurd hsa hd.1
        · exact htr
      · exact ht.1
    rintro payload ttl ⟨⟩
    rfl
  case h_3 | h_4 =>
    cases he
    exact ⟨rfl, ht.2.2.2.1⟩
  case h_5 =>
    cases he
    obtain ⟨-, rfl, htr, hne⟩ := ht
    refine ⟨rfl, ⟨rfl, htr, hne, trivial⟩, ?_⟩
    rintro payload ttl ⟨⟩
    exact hpa _ _ rfl
  case h_6 =>
    cases he
    obtain ⟨-, rfl, htr, hne⟩ := ht
    exact ⟨rfl, htr, fun _ => htr.value_eq_none hne⟩
  case h_7 =>
    obtain ⟨hin, htr, hne, hr⟩ := ht
    split at he
    · cases he
      exact ⟨rfl, by rw [hin]; exact htr, fun _ => hr⟩
    rw [if_pos hr.1] at he
    cases he
    refine ⟨rfl, ⟨rfl, rfl, hr.2⟩, ?_⟩
    rintro payload ttl ⟨⟩
    exact hpa _ _ rfl
  case h_8 =>
    cases he
    obtain ⟨-, rfl, htr, hne⟩ := ht
    exact ⟨rfl, htr, fun _ => htr.value_eq_none hne⟩
  case h_9 => cases he

end Steps

/-- Where a call of the handle stands; the handle is refreshed, and does not retake. -/
def CallTracks (kv : KvKey (LeaseEntry T ι)) (late : List (ι × KvRequest (LeaseEntry T ι)))
    (holder : T) (h : LeaseHandle T) (answer : Option (KvAnswer (LeaseEntry T ι))) :
    LeasePc T → Prop
  | .idle => Tracks kv late h.revision h.inFlight
  | .refresh call pc => h.retakes call = none ∧
      (∀ payload ttl, pc.prepared = some (payload, ttl) → payload.holder = holder) ∧
      RefreshTracks kv late h answer pc
  | _ => False

lemma CallTracks.shifts {kv kv' : KvKey (LeaseEntry T ι)}
    {late late' : List (ι × KvRequest (LeaseEntry T ι))} {holder : T} {h : LeaseHandle T}
    {answer : Option (KvAnswer (LeaseEntry T ι))} {pc : LeasePc T}
    (ht : CallTracks kv late holder h answer pc) (hs : Shifts kv late kv' late') :
    CallTracks kv' late' holder h answer pc := by
  cases pc with
  | idle => exact hs.tracks _ _ ht
  | refresh => exact ⟨ht.1, ht.2.1, ht.2.2.shifts hs⟩
  | _ => exact ht

lemma heldBy_of_serves {kv kv' : KvKey (LeaseEntry T ι)} {req : KvRequest (LeaseEntry T ι)}
    {answer : KvAnswer (LeaseEntry T ι)} {t : T} (hse : kv.Serves req kv' answer)
    (he : ∀ v, kv.value = some v → v.HeldBy t)
    (hr : ∀ w, req.writes = some w → w.HeldBy t) : (∀ v, kv'.value = some v → v.HeldBy t) ∧
      ∀ v r, answer = .entry (some (v, r)) → v.HeldBy t := by
  cases hse with
  | get =>
    refine ⟨he, fun v r hq => ?_⟩
    obtain ⟨w, hw, hpa⟩ := map_eq_some_iff.1 (KvAnswer.entry.inj hq)
    cases hpa
    exact he v hw
  | create v | update v =>
    exact ⟨fun w hw => hr w (by simpa [KvRequest.writes] using hw), by simp⟩
  | delete => exact ⟨by simp, by simp⟩
  | _ => exact ⟨he, by simp⟩

lemma heldBy_of_request {pc : RefreshPc T} {t : T} {w : LeaseEntry T ι} {i : ι}
    (hpa : ∀ payload ttl, pc.prepared = some (payload, ttl) → payload.holder = t)
    (hw : (pc.request i).writes = some w) : w.HeldBy t := by
  cases pc with try cases hw
  | swapping payload ttl un revision | reswapping payload ttl revision =>
    exact ⟨payload, rfl, hpa payload ttl rfl⟩

namespace LeaseRun

variable [DecidableEq T] [DecidableEq ι] {holder : ι → T} {s s' : LeaseRun T ι} {a : LeaseAct ι}
  {i : ι}

/-- The handle, and every entry and write of the key, are of the one holder. -/
structure Tracked (holder : ι → T) (i : ι) (s : LeaseRun T ι) : Prop where
  entry : ∀ v, s.kv.value = some v → v.HeldBy (holder i)
  late : ∀ sent ∈ s.late, ∀ w, sent.2.writes = some w → w.HeldBy (holder i)
  read : ∀ v r, (s.calls i).answer = some (.entry (some (v, r))) → v.HeldBy (holder i)
  call : ∃ h, s.handles i = some h ∧
    CallTracks s.kv s.late (holder i) h (s.calls i).answer (s.calls i).pc

/-- An earlier unanswered write of the handle is not the entry, and can no longer be, unless the
swap that is given up was taken. -/
def clear (s : LeaseRun T ι) (i : ι) : Bool :=
  match (s.calls i).pc, (s.calls i).answer with
  | .refresh _ (.swapping _ _ (some _) _), some (.written (some _)) => true
  | .refresh _ (.swapping _ _ (some _) revision), _ => s.kv.value.isNone ||
      decide (s.kv.revision = revision ∧ ∀ sent ∈ s.late, sent.2.expects ≠ some revision)
  | _, _ => true

/-- Only the one handle is refreshed, without a retake; its writes are sent once, and it gives up
when its earlier write is settled. -/
def Heeds (i : ι) (s : LeaseRun T ι) : LeaseAct ι → Prop
  | .tick _ | .lapse | .land _ _ => True
  | .refresh j _ _ | .serve j _ | .hear j | .expire j | .maxHold j => j = i
  | .renew j => j = i ∧ ∀ h ∈ s.handles i, ∀ held ∈ h.held, held.retake = false
  | .giveUp j => j = i ∧ s.clear i = true
  | .acquire _ _ _ | .release _ | .resend _ => False

instance (s : LeaseRun T ι) (a) : Decidable (s.Heeds i a) := by
  apply LeaseAct.casesOn (motive := fun a => Decidable (s.Heeds i a)) a <;> intros <;>
    dsimp only [Heeds] <;> infer_instance

omit [DecidableEq T] [DecidableEq ι] in
lemma clear_of_swapping {call : RefreshCall} {pc : RefreshPc T} (hc : s.clear i = true)
    (hpc : (s.calls i).pc = .refresh call pc) :
    ∀ payload ttl p revision, pc = .swapping payload ttl (some p) revision →
      (∃ r, (s.calls i).answer = some (.written (some r))) ∨ s.kv.value = none ∨
        s.kv.revision = revision ∧ ∀ sent ∈ s.late, sent.2.expects ≠ some revision := by
  rintro payload ttl p revision rfl
  unfold clear at hc
  rw [hpc] at hc
  split at hc
  · next han => exact .inl ⟨_, han⟩
  · next he _ =>
    cases he
    simpa using Or.inr hc
  · next ho _ => exact absurd rfl (ho _ _ _ _ _)

namespace Tracked

variable (h : s.Tracked holder i)
include h

lemma hear (hst : step holder s (.hear i) = some s') : s'.Tracked holder i := by
  obtain ⟨answer, han, hst⟩ := bind_eq_some_iff.1 hst
  obtain ⟨next, hnext, rfl⟩ := map_eq_some_iff.1 hst
  obtain ⟨h₀, hh, hcall⟩ := h.call
  have hread : ∀ v r, answer = .entry (some (v, r)) → v.HeldBy (holder i) :=
    fun v r he => h.read v r (he ▸ han)
  refine ⟨h.entry, h.late, by simp, ?_⟩
  simp only [update_self]
  cases hpc : (s.calls i).pc with
  | idle =>
    rw [hpc] at hnext
    cases hnext
  | acquire attempt pc | retake sta rea payload | release pc =>
    rw [hpc] at hcall
    exact hcall.elim
  | refresh call =>
    rw [hpc, han] at hcall
    rw [hpc, hh] at hnext
    obtain ⟨hr, hpa, ht⟩ := hcall
    obtain ⟨⟨h', after⟩, hre, he⟩ := map_eq_some_iff.1 hnext
    obtain ⟨hheld, hne⟩ := ht.refreshHandle hpa hread hre
    have hr' : h'.retakes call = none := by
      simp only [LeaseHandle.retakes, hheld]
      exact hr
    cases after with
    | ask =>
      cases he
      exact ⟨h', rfl, hr', hne.2, hne.1⟩
    | returned =>
      cases he
      refine ⟨_, rfl, ?_⟩
      cases call.started <;> exact hne
    | raised =>
      simp only [hr'] at he
      cases he
      exact ⟨_, rfl, hne.1⟩

omit [DecidableEq T] in
lemma giveUp (hc : s.clear i = true) {late : List (ι × KvRequest (LeaseEntry T ι))}
    (hlate : late = s.late ∨ ∃ req, (s.calls i).answer = none ∧ req.isWrite = true ∧
      (s.calls i).pc.request (holder i) i = some req ∧ late = s.late ++ [(i, req)]) :
    Tracked holder i { s with calls := update s.calls i ⟨.idle, none⟩, late := late } := by
  obtain ⟨h₀, hh, hcall⟩ := h.call
  cases hpc : (s.calls i).pc with
  | idle =>
    rw [hpc] at hcall hlate
    obtain rfl : late = s.late := by simpa [LeasePc.request] using hlate
    refine ⟨h.entry, h.late, by simp, h₀, hh, ?_⟩
    simp only [update_self]
    exact hcall
  | acquire attempt pc | retake sta rea payload | release pc =>
    rw [hpc] at hcall
    exact hcall.elim
  | refresh _ pc =>
    rw [hpc] at hcall hlate
    obtain ⟨-, hpa, ht⟩ := hcall
    refine ⟨h.entry, fun sent he w hw => ?_, by simp, h₀, hh, ?_⟩
    · obtain rfl | ⟨req, -, -, hr, rfl⟩ := hlate
      · exact h.late sent he w hw
      obtain he | he := mem_append.1 he
      · exact h.late sent he w hw
      cases mem_singleton.1 he
      cases hr
      exact heldBy_of_request hpa hw
    have hl' : late = s.late ∨ (s.calls i).answer = none ∧ (pc.request i).isWrite = true ∧
        late = s.late ++ [(i, pc.request i)] := by
      obtain rfl | ⟨req, han, hwr, hr, rfl⟩ := hlate
      · exact .inl rfl
      cases hr
      exact .inr ⟨han, hwr, rfl⟩
    simp only [update_self]
    exact ht.giveUp (clear_of_swapping hc hpc) hl'

omit [DecidableEq T] in
lemma serve {req : KvRequest (LeaseEntry T ι)}
    {kv : KvKey (LeaseEntry T ι)} {answer : KvAnswer (LeaseEntry T ι)}
    (han : (s.calls i).answer = none)
    (hr : (s.calls i).pc.request (holder i) i = some req)
    (hse : s.kv.Serves req kv answer) : Tracked holder i { s with
        kv := kv
        calls := update s.calls i ⟨(s.calls i).pc, some answer⟩ } := by
  obtain ⟨h₀, hh, hcall⟩ := h.call
  cases hpc : (s.calls i).pc with
  | refresh =>
    rw [hpc, han] at hcall
    rw [hpc] at hr
    cases hr
    obtain ⟨hre, hpa, ht⟩ := hcall
    obtain ⟨he, hread⟩ := heldBy_of_serves hse h.entry fun w hw =>
      heldBy_of_request hpa hw
    refine ⟨he, h.late, by simpa using hread, h₀, hh, ?_⟩
    simp only [update_self]
    exact ⟨hre, hpa, ht.serves hse⟩
  | idle =>
    rw [hpc] at hr
    cases hr
  | _ =>
    rw [hpc] at hcall
    exact hcall.elim

theorem step (ho : s.Heeds i a)
    (ht : LeaseRun.step holder s a = some s') : s'.Tracked holder i := by
  have hm := moves_of_step ht
  cases hm with try obtain ⟨h₀, hh, hcall⟩ := h.call
  | tick => exact { h with }
  | lapse =>
    exact ⟨by simp, h.late, h.read, h₀, hh, hcall.shifts shifts_lapse⟩
  | begin _ j _ _ hidle hbegins =>
    generalize hb : s.handles j = before at hbegins
    cases hbegins with
    | acquire ttl hold | release h₁ => exact ho.elim
    | refresh h₁ _ _ hheld =>
      cases ho
      obtain rfl : h₀ = h₁ := Option.some.inj (hh.symm.trans hb)
      rw [hidle] at hcall
      refine ⟨h.entry, h.late, by simp, h₀, by simp, ?_⟩
      simp only [update_self]
      exact ⟨by simp [LeaseHandle.retakes, hheld], by simp [RefreshPc.prepared], hcall, trivial⟩
    | renew h₁ held hheld =>
      obtain ⟨rfl, hr⟩ := ho
      obtain rfl : h₀ = h₁ := Option.some.inj (hh.symm.trans hb)
      rw [hidle] at hcall
      refine ⟨h.entry, h.late, by simp, h₀, by simp, ?_⟩
      simp only [update_self]
      refine ⟨?_, by simp [RefreshPc.prepared], hcall, trivial⟩
      simp [LeaseHandle.retakes, hheld, hr h₀ hh held hheld]
  | tell _ j h₁ rea hact hh' =>
    obtain rfl : j = i := by rcases hact with rfl | rfl <;> exact ho
    obtain ⟨h₀, hh, hcall⟩ := h.call
    obtain rfl : h₀ = h₁ := Option.some.inj (hh.symm.trans hh')
    refine ⟨h.entry, h.late, h.read, h₀.tell rea, by simp, ?_⟩
    cases hpc : (s.calls j).pc with rw [hpc] at hcall
    | idle => exact hcall
    | refresh _ pc =>
      refine ⟨hcall.1, hcall.2.1, ?_⟩
      cases pc <;> exact hcall.2.2
    | _ => exact hcall.elim
  | serve _ _ _ _ _ han hre hse =>
    cases ho
    exact h.serve han hre hse
  | resend => exact ho.elim
  | hear =>
    cases ho
    exact h.hear ht
  | giveUp _ _ hlate =>
    obtain ⟨rfl, hc⟩ := ho
    exact h.giveUp hc hlate
  | land _ _ _ _ _ _ hn hse =>
    have he := heldBy_of_serves hse h.entry (h.late _ (mem_of_getElem? hn))
    refine ⟨he.1, fun sent hsn => h.late sent (mem_of_mem_eraseIdx hsn), h.read, h₀,
      hh, hcall.shifts ?_⟩
    exact shifts_land hn hse

end Tracked

/-- What `refresh_handle` raises when acquisition `i` hears the answer. -/
def reports (holder : ι → T) (s : LeaseRun T ι) (i : ι) : Option LossReason :=
  match s.handles i, (s.calls i).pc, (s.calls i).answer with
  | some h, .refresh call pc, some answer =>
    match refreshHandle (holder i) s.now call h pc answer with
    | some (_, .raised reason) => some reason
    | _ => none
  | _, _, _ => none

/-- The acquisition has a handle at the revision of its entry, and nothing is on its way. -/
structure Granted (holder : ι → T) (i : ι) (s : LeaseRun T ι) : Prop where
  entry : ∃ v h, s.kv.value = some v ∧ v.HeldBy (holder i) ∧ s.handles i = some h ∧
    h.revision = s.kv.revision ∧ h.inFlight = none
  idle : (s.calls i).pc = .idle
  unanswered : (s.calls i).answer = none
  late : s.late = []

omit [DecidableEq T] [DecidableEq ι] in
lemma Granted.tracked (h : s.Granted holder i) : s.Tracked holder i := by
  obtain ⟨v, h₀, hv, hheld, hh, hrev, hin⟩ := h.entry
  refine ⟨fun w hw => ?_, by simp [h.late], by simp [h.unanswered], h₀, hh, ?_⟩
  · rw [hv] at hw
    cases hw
    exact hheld
  rw [h.idle]
  exact .still (by simp [hv]) hrev.symm (by simp [h.late])

/-- In runs of one handle's refreshes whose steps all heed: no refresh reports the lease taken while
the entry is of the handle's own holder. -/
theorem not_taken_by_own {s₀ : LeaseRun T ι} {acts : List (LeaseAct ι)}
    (hgranted : s₀.Granted holder i) (hrun : ((system holder).guard (Heeds i)).run s₀ acts = some s)
    (hreports : s.reports holder i = some .taken) :
    ∀ v, s.kv.value = some v → ¬ v.HeldBy (holder i) := by
  have h : s.Tracked holder i := by
    refine StepSystem.run_guard_invariant _ (fun s a s' h ho ht => ?_) hgranted.tracked hrun
    exact h.step ho ht
  intro v hv
  obtain ⟨h₀, hhandle, hcall⟩ := h.call
  unfold reports at hreports
  split at hreports
  · next h₁ _ _ answer hh' hpc han =>
    obtain rfl : h₀ = h₁ := Option.some.inj (hhandle.symm.trans hh')
    rw [hpc, han] at hcall
    split at hreports <;> cases hreports
    · next hr =>
      have hread : ∀ v r, answer = .entry (some (v, r)) → v.HeldBy (holder i) :=
        fun v r he => h.read v r (he ▸ han)
      have hnext := (hcall.2.2.refreshHandle hcall.2.1 hread hr).2
      rw [hnext.2 rfl] at hv
      cases hv
  · cases hreports

def justAcquired : LeaseRun Nat Unit where
  now := 0
  kv := KvKey.empty.push (some ⟨some ⟨1, 30, 0⟩, some ()⟩)
  handles _ := some (Attempt.handle ⟨30, 0, none⟩ 1)
  calls _ := ⟨.idle, none⟩
  late := []

lemma granted_justAcquired : justAcquired.Granted (fun _ => 1) () :=
  ⟨⟨_, _, rfl, ⟨_, rfl, rfl⟩, rfl, rfl, rfl⟩, rfl, rfl, rfl⟩

/-- A refresh without an answer, whose write is taken while the next one is under way; the entry
lapses before that one writes. -/
def refreshedOver : List (LeaseAct Unit) :=
  [.tick 10, .refresh () none false, .serve () false, .hear (), .giveUp (), .refresh () none false,
    .serve () false, .hear (), .land 0 false, .serve () false, .hear (), .serve () false, .hear (),
    .tick 40, .lapse, .serve () false]

theorem not_taken_by_own_refreshedOver : ∃ s : LeaseRun Nat Unit,
      ((system fun _ => 1).guard (Heeds ())).run justAcquired refreshedOver = some s ∧
        s.reports (fun _ => 1) () = some .taken ∧ ∀ v, s.kv.value = some v → ¬ v.HeldBy 1 := by
  exact StepSystem.exists_run_and _ rfl fun s hu hr =>
    not_taken_by_own granted_justAcquired hu hr

/-- Two refreshes in a row without an answer; the first write is taken after the second was given
up. -/
def twiceUnheard : List (LeaseAct Unit) :=
  [.tick 1, .refresh () none false, .serve () false, .hear (), .giveUp (), .tick 1,
    .refresh () none false, .serve () false, .hear (), .giveUp (), .land 0 false,
    .refresh () none false, .serve () false, .hear (), .serve () false, .hear (), .serve () false]

/-- The next refresh reports the lease taken, and the entry is the handle's own. -/
theorem taken_by_own_twiceUnheard : ∃ s : LeaseRun Nat Unit,
      (system fun _ => 1).run justAcquired twiceUnheard = some s ∧
        s.reports (fun _ => 1) () = some .taken ∧
        s.kv.value.bind LeaseEntry.envelope = some ⟨1, 31, 0⟩ :=
  StepSystem.exists_run_of_any _ rfl

end LeaseRun

end ThreeTears
