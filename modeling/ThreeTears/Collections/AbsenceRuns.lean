import ThreeTears.Collections.AbsentMarkers
import ThreeTears.Lib.Families

/-!
# A recorded absence hides no committed row

A generation's token never comes back, so it stands for a stretch of time. A marker's read of L3 ran
after its token's stretch began, and a read that learns the token is in the stretch; a writer whose
advance is done by then committed before it began.
-/

namespace ThreeTears

open Function List Option

lemma generationToken_inj {u v : Text} {n m : ℕ} :
    generationToken u n = generationToken v m ↔ u = v ∧ n = m := by
  refine ⟨fun h => ?_, fun ⟨hu, hn⟩ => hu ▸ hn ▸ rfl⟩
  have he : ∀ k : ℕ, ':' ∉ Nat.toDigits 10 k := fun k hk =>
    absurd (Nat.isDigit_of_mem_toDigits (by decide) (by decide) hk) (by decide)
  have hpa := congrArg (rpartition ':') h
  rw [generationToken, generationToken, rpartition_append (he n), rpartition_append (he m),
    Option.some.injEq, Prod.mk.injEq] at hpa
  refine ⟨hpa.1, ?_⟩
  have hc := congrArg (fun dig => Nat.ofDigitChars 10 dig 0) hpa.2
  simpa [Nat.ofDigitChars_toDigits] using hc

variable {K π Λ ι : Type*}

namespace MarkerRun

/-- What a call knows of the generation it learnt and of the entry it read. `since` says when each
token became the key's value. -/
def Stands (s : MarkerRun K π Λ ι) (since : Text → Option ℕ) : MarkerPc K π → Prop
  | .idle | .learning _ _ | .seeding _ _ | .relearning _ _ => True
  | .checking _ _ token learnedAt => learnedAt < s.clock ∧
      ∃ a ∈ since token, ∀ w ∈ s.writes, w.advancedAt < learnedAt → w.advancedAt ≤ a
  | .fetching _ _ generation => ∀ token ∈ generation, ∃ a, since token = some a
  | .recording _ _ token readAt => ∃ a ∈ since token, a ≤ readAt
  | .committed _ committedAt => committedAt < s.clock
  | .advancing _ committedAt entry => committedAt < s.clock ∧
      ∀ e ∈ entry, 0 < e.2 ∧ s.generation.Saw (some e.2) (some e.1)

structure Knows [DecidableEq K] (s : MarkerRun K π Λ ι) (since : Text → Option ℕ) : Prop where
  past : ∀ token, ∀ a ∈ since token, a < s.clock
  tokens : ∀ token, ∀ a ∈ since token, ∃ u ∈ s.minted, u ≠ [] ∧ ∃ n, token = generationToken u n
  /-- the key's value is the token of the latest advance -/
  current : ∀ token ∈ s.generation.value, ∃ a ∈ since token, ∀ w ∈ s.writes, w.advancedAt ≤ a
  latest : ∀ u n m, s.generation.value = some (generationToken u n) →
    ∀ a ∈ since (generationToken u m), m ≤ n
  markers : ∀ l k, ∀ m ∈ (s.markers l).get k, ∃ a ∈ since m.generation, a ≤ m.readAt
  calls : ∀ c, s.Stands since (s.calls c)
  writes : ∀ w ∈ s.writes, w.committedAt < w.advancedAt ∧ w.advancedAt < s.clock
  answers : ∀ a ∈ s.answers, a.learnedAt < s.clock ∧
    ∀ w ∈ s.writes, w.advancedAt < a.learnedAt → w.committedAt < a.readAt

lemma Knows.start [DecidableEq K] (rows : K → Bool) :
    Knows (start rows : MarkerRun K π Λ ι) (fun _ => none) where
  past _ _ h := nomatch h
  tokens _ _ h := nomatch h
  current _ h := nomatch h
  latest _ _ _ h := nomatch h
  markers _ _ _ h := nomatch h
  calls _ := trivial
  writes _ h := nomatch h
  answers _ h := nomatch h

variable {s t : MarkerRun K π Λ ι} {since since' : Text → Option ℕ} {pc : MarkerPc K π}

/-- What an entry that was read says, a change of the key leaves. -/
def KeepsSeen (kv kv' : KvKey Text) : Prop :=
  ∀ r token, 0 < r → kv.Saw (some r) (some token) → kv'.Saw (some r) (some token)

lemma keepsSeen_of_stands {kv kv' : KvKey Text} (h : kv.Stands kv') : KeepsSeen kv kv' :=
  fun _ _ _ hsa => hsa.stands h

lemma keepsSeen_lapse (kv : KvKey Text) : KeepsSeen kv kv.lapse := by
  intro r token hr hsa
  refine ⟨hsa.le, fun hfr => ?_⟩
  have hz : 0 = r := hfr
  omega

lemma Stands.mono (h : s.Stands since pc) (hc : s.clock ≤ t.clock)
    (hi : ∀ token, ∀ a ∈ since token, a ∈ since' token)
    (hseen : KeepsSeen s.generation t.generation)
    (hr : ∀ w ∈ t.writes, w ∈ s.writes ∨ s.clock ≤ w.advancedAt) : t.Stands since' pc := by
  cases pc with
  | idle | learning | seeding | relearning => trivial
  | checking =>
    obtain ⟨hl, a, ha, hal⟩ := h
    refine ⟨hl.trans_le hc, a, hi _ a ha, fun w hw hlt => ?_⟩
    rcases hr w hw with hw | hla
    · exact hal w hw hlt
    · exact absurd (hlt.trans hl) (not_lt.2 hla)
  | fetching =>
    intro token ht
    obtain ⟨a, ha⟩ := h token ht
    exact ⟨a, hi _ a ha⟩
  | recording =>
    obtain ⟨a, ha, hle⟩ := h
    exact ⟨a, hi _ a ha, hle⟩
  | committed => exact lt_of_lt_of_le h hc
  | advancing =>
    obtain ⟨ho, hen⟩ := h
    refine ⟨ho.trans_le hc, fun e he => ?_⟩
    obtain ⟨hpos, hsa⟩ := hen e he
    exact ⟨hpos, hseen _ _ hpos hsa⟩

variable [DecidableEq K]

lemma Knows.stay (h : Knows s since) (hc : t.clock = s.clock + 1)
    (hi : s.minted ⊆ t.minted) (hr : t.writes = s.writes)
    (hva : ∀ token ∈ t.generation.value, token ∈ s.generation.value)
    (hm : ∀ l k, ∀ m ∈ (t.markers l).get k, ∃ a ∈ since m.generation, a ≤ m.readAt)
    (hcs : ∀ c, t.Stands since (t.calls c)) (han : ∀ a ∈ t.answers, a.learnedAt < t.clock ∧
      ∀ w ∈ s.writes, w.advancedAt < a.learnedAt → w.committedAt < a.readAt) : Knows t since where
  past token a ha := (h.past token a ha).trans (hc ▸ Nat.lt_succ_self _)
  tokens token a ha := by
    obtain ⟨u, hu, he, n, rfl⟩ := h.tokens token a ha
    exact ⟨u, hi hu, he, n, rfl⟩
  current token ht := hr ▸ h.current token (hva token ht)
  latest u n m ht := h.latest u n m (hva _ ht)
  markers := hm
  calls := hcs
  writes w hw := by
    obtain ⟨ho, hd⟩ := h.writes w (hr ▸ hw)
    exact ⟨ho, hd.trans (hc ▸ Nat.lt_succ_self _)⟩
  answers := hr ▸ han

lemma Knows.pass (h : Knows s since) (hc : t.clock = s.clock + 1)
    (hi : t.minted = s.minted) (hr : t.writes = s.writes) (hcs : t.calls = s.calls)
    (han : t.answers = s.answers) (hva : ∀ token ∈ t.generation.value, token ∈ s.generation.value)
    (hseen : KeepsSeen s.generation t.generation)
    (hma : ∀ l k, ∀ m ∈ (t.markers l).get k, m ∈ (s.markers l).get k) : Knows t since := by
  refine h.stay hc (fun _ hu => hi ▸ hu) hr hva
    (fun l k m hm => h.markers l k m (hma l k m hm)) (fun c => ?_) fun a ha => ?_
  · rw [hcs]
    exact (h.calls c).mono (hc ▸ Nat.le_succ _) (fun _ _ ha => ha) hseen
      fun w hw => .inl (hr ▸ hw)
  obtain ⟨hl, hal⟩ := h.answers a (han ▸ ha)
  exact ⟨hl.trans (hc ▸ Nat.lt_succ_self _), hal⟩

lemma Knows.move {token : Text} (h : Knows s since) (hc : t.clock = s.clock + 1)
    (hg : t.generation = s.generation.push (some token)) (hnew : since token = none)
    {u : Text} {n : ℕ} (ht : token = generationToken u n) (hu : u ∈ t.minted) (he : u ≠ [])
    (hi : s.minted ⊆ t.minted) (hla : ∀ m, ∀ a ∈ since (generationToken u m), m ≤ n)
    (hr : ∀ w ∈ t.writes, w ∈ s.writes ∨ w.committedAt < s.clock ∧ w.advancedAt = s.clock)
    (hma : t.markers = s.markers) (han : t.answers = s.answers)
    (hcs : ∀ c, t.Stands (update since token (some s.clock)) (t.calls c)) :
    Knows t (update since token (some s.clock)) := by
  have hsi : ∀ token', ∀ a ∈ since token', a ∈ update since token (some s.clock) token' := by
    intro token' a ha
    rcases eq_or_ne token' token with rfl | he
    · exact absurd ha (hnew ▸ nofun)
    · rwa [update_of_ne he]
  have hva : t.generation.value = some token := by rw [hg, KvKey.push_value]
  refine ⟨fun token' a ha => ?_, fun token' a ha => ?_, fun token' ht' => ?_,
    fun v k m hv a ha => ?_, fun l k m hm => ?_, hcs, fun w hw => ?_, fun a ha => ?_⟩
  · rw [hc]
    obtain ⟨-, ⟨⟩⟩ | ⟨-, ha⟩ := of_update_eq ha
    · exact Nat.lt_succ_self _
    exact (h.past token' a ha).trans (Nat.lt_succ_self _)
  · rcases eq_or_ne token' token with rfl | hn'
    · exact ⟨u, hu, he, n, ht⟩
    rw [update_of_ne hn'] at ha
    obtain ⟨v, hv, hvn, m, rfl⟩ := h.tokens token' a ha
    exact ⟨v, hi hv, hvn, m, rfl⟩
  · rw [hva] at ht'
    cases ht'
    refine ⟨s.clock, by rw [update_self]; rfl, fun w hw => ?_⟩
    rcases hr w hw with hw | ⟨-, hd⟩
    · exact (h.writes w hw).2.le
    · exact hd.le
  · rw [hva, ht, Option.some.injEq, generationToken_inj] at hv
    obtain ⟨rfl, rfl⟩ := hv
    rcases eq_or_ne (generationToken u m) token with hm | hm
    · rw [ht, generationToken_inj] at hm
      exact hm.2.le
    rw [update_of_ne hm] at ha
    exact hla m a ha
  · rw [hma] at hm
    obtain ⟨a, ha, hle⟩ := h.markers l k m hm
    exact ⟨a, hsi _ a ha, hle⟩
  · rw [hc]
    rcases hr w hw with hw | ⟨ho, hd⟩
    · exact ⟨(h.writes w hw).1, (h.writes w hw).2.trans (Nat.lt_succ_self _)⟩
    · exact ⟨hd ▸ ho, hd ▸ Nat.lt_succ_self _⟩
  rw [hc]
  obtain ⟨hl, hal⟩ := h.answers a (han ▸ ha)
  refine ⟨hl.trans (Nat.lt_succ_self _), fun w hw hlt => ?_⟩
  rcases hr w hw with hw | ⟨-, hd⟩
  · exact hal w hw hlt
  · exact absurd (hd ▸ hlt) (not_lt.2 hl.le)

/-! ### The marker table -/

/-- Only the markers change: those there were before, some of them gone, and new ones as given. -/
structure Remarks (s t : MarkerRun K π Λ ι) (new : AbsentMarker → Prop) : Prop where
  generation : t.generation = s.generation
  minted : t.minted = s.minted
  calls : t.calls = s.calls
  clock : t.clock = s.clock
  writes : t.writes = s.writes
  answers : t.answers = s.answers
  markers : ∀ l k, ∀ m ∈ (t.markers l).get k, m ∈ (s.markers l).get k ∨ new m

lemma Remarks.refl (s : MarkerRun K π Λ ι) : Remarks s s fun _ => False :=
  ⟨rfl, rfl, rfl, rfl, rfl, rfl, fun _ _ _ hm => .inl hm⟩

lemma Remarks.trans {new : AbsentMarker → Prop} {u : MarkerRun K π Λ ι}
    (h : Remarks s t fun _ => False) (h' : Remarks t u new) : Remarks s u new where
  generation := h'.generation.trans h.generation
  minted := h'.minted.trans h.minted
  calls := h'.calls.trans h.calls
  clock := h'.clock.trans h.clock
  writes := h'.writes.trans h.writes
  answers := h'.answers.trans h.answers
  markers l k m hm := by
    rcases h'.markers l k m hm with hm | hm
    · exact .inl ((h.markers l k m hm).resolve_right id)
    · exact .inr hm

variable {m : AbsentMarker}

lemma mem_get_filter {d : Dict K AbsentMarker} {keep : K → Bool} {k : K}
    (h : m ∈ (d.filter keep).get k) : m ∈ d.get k := by
  rw [Dict.get_filter] at h
  split_ifs at h
  · exact h
  · cases h

variable [DecidableEq π] [DecidableEq Λ] {cfg : MarkerConfig π Λ} {p : π} {k : K} {token : Text}
  {now readAt : ℕ} {l : Λ} {d : Dict K AbsentMarker} {new : AbsentMarker → Prop}

omit [DecidableEq π] in
lemma remarks_setMarkers (h : ∀ k, ∀ m ∈ d.get k, m ∈ (s.markers l).get k ∨ new m) :
    Remarks s (s.setMarkers l d) new where
  generation := rfl
  minted := rfl
  calls := rfl
  clock := rfl
  writes := rfl
  answers := rfl
  markers l' k m hm := by
    have hm : m ∈ (update s.markers l d l').get k := hm
    rcases eq_or_ne l' l with rfl | hl
    · rw [update_self] at hm
      exact h k m hm
    rw [update_of_ne hl] at hm
    exact .inl hm

lemma remarks_dropMoved : Remarks s (s.dropMoved cfg p token) fun _ => False := by
  unfold dropMoved
  split_ifs
  · exact .refl s
  have h : Remarks s (s.setMarkers (cfg.l1 p) ((s.markers (cfg.l1 p)).filter
      fun k => k ∉ dead (s.markers (cfg.l1 p)) token)) fun _ => False :=
    remarks_setMarkers fun _ _ hm => .inl (mem_get_filter hm)
  exact { h with }

lemma remarks_markerMatches : Remarks s (s.markerMatches cfg p k token now).1 fun _ => False := by
  unfold markerMatches
  dsimp only
  split
  · exact remarks_dropMoved
  split_ifs
  · exact remarks_dropMoved
  · exact remarks_dropMoved.trans (remarks_setMarkers fun _ _ hm => .inl (mem_get_filter hm))

lemma held_of_markerMatches (h : (s.markerMatches cfg p k token now).2 = some m) :
    m ∈ (s.markers (cfg.l1 p)).get k ∧ m.generation = token := by
  unfold markerMatches at h
  dsimp only at h
  split at h
  · cases h
  rename_i m' hm'
  split_ifs at h with hm
  cases h
  exact ⟨(remarks_dropMoved.markers _ _ _ hm').resolve_right id, hm.1⟩

lemma remarks_writeMarker : Remarks s (s.writeMarker cfg p k token readAt now)
    fun m => m.generation = token ∧ m.readAt = readAt := by
  refine remarks_dropMoved.trans (remarks_setMarkers fun k' m hm => ?_)
  have hm := mem_get_filter hm
  rcases eq_or_ne k' k with rfl | hk
  · rw [Dict.get_set_self] at hm
    cases hm
    exact .inr ⟨rfl, rfl⟩
  rw [Dict.get_set_of_ne hk] at hm
  exact .inl hm

variable [DecidableEq ι] {c : ι} {as : List (AbsenceAnswer K)}

section

variable (h : Knows s since)
include h

omit [DecidableEq π] [DecidableEq Λ] in
lemma Knows.turn (hr : Remarks s t new) (hnew : ∀ m, new m → ∃ a ∈ since m.generation, a ≤ m.readAt)
    (hpc : { s with clock := s.clock + 1 }.Stands since pc)
    (has : ∀ a ∈ as, a ∈ s.answers ∨ a.learnedAt < s.clock ∧
      ∀ w ∈ s.writes, w.advancedAt < a.learnedAt → w.committedAt < a.readAt) :
    Knows { t.setCall c pc with answers := as, clock := s.clock + 1 } since := by
  refine h.stay rfl (fun u hu => hr.minted ▸ hu) hr.writes
    (fun token ht => hr.generation ▸ ht) ?_ ?_ ?_
  · intro l k m hm
    rcases hr.markers l k m hm with hm | hm
    · exact h.markers l k m hm
    · exact hnew m hm
  · have hseen : KeepsSeen s.generation t.generation := fun _ _ _ hsa => hr.generation ▸ hsa
    have hwr : ∀ w ∈ t.writes, w ∈ s.writes ∨ s.clock + 1 ≤ w.advancedAt :=
      fun w hw => .inl (hr.writes ▸ hw)
    refine forall_update (I := fun _ (pc : MarkerPc K π) => Stands _ since pc) (fun d => ?_)
      (hpc.mono le_rfl (fun _ _ ha => ha) hseen hwr)
    rw [hr.calls]
    exact (h.calls d).mono (Nat.le_succ _) (fun _ _ ha => ha) hseen
      fun w hw => .inl (hr.writes ▸ hw)
  intro a ha
  rcases has a ha with ha | ⟨hl, hal⟩
  · exact ⟨(h.answers a ha).1.trans (Nat.lt_succ_self _), (h.answers a ha).2⟩
  · exact ⟨hl.trans (Nat.lt_succ_self _), hal⟩

omit [DecidableEq π] [DecidableEq Λ] in
lemma Knows.next (hpc : { s with clock := s.clock + 1 }.Stands since pc) :
    Knows { s.setCall c pc with clock := s.clock + 1 } since :=
  h.turn (.refl s) (fun _ hm => hm.elim) hpc fun _ ha => .inl ha

omit [DecidableEq π] [DecidableEq Λ] [DecidableEq ι] in
lemma Knows.mint (inc : Text) :
    Knows { s with minted := inc :: s.minted } since where
  __ := h
  tokens token a ha := by
    obtain ⟨u, hu, he, n, hn⟩ := h.tokens token a ha
    exact ⟨u, mem_cons_of_mem _ hu, he, n, hn⟩
  calls d := (h.calls d).mono le_rfl (fun _ _ ha => ha) (fun _ _ _ hsa => hsa) fun _ hw => .inl hw

omit [DecidableEq π] [DecidableEq Λ] [DecidableEq ι] in
lemma Knows.since_of_mints {inc : Text} (hi : s.Mints inc)
    (n : ℕ) : since (generationToken inc n) = none := by
  cases hn : since (generationToken inc n) with
  | none => rfl
  | some a =>
    obtain ⟨u, hu, -, m, hm⟩ := h.tokens _ a hn
    rw [(generationToken_inj.1 hm).1] at hi
    exact absurd hu hi.2

omit [DecidableEq π] [DecidableEq Λ] in
lemma Knows.push {u : Text} {n : ℕ}
    (hg : t.generation = s.generation.push (some (generationToken u n)))
    (hcs : t.calls = update s.calls c pc) (hc : t.clock = s.clock + 1)
    (hm : t.markers = s.markers) (han : t.answers = s.answers) (hi : s.minted ⊆ t.minted)
    (hr : ∀ w ∈ t.writes, w ∈ s.writes ∨ w.committedAt < s.clock ∧ w.advancedAt = s.clock)
    (hu : u ∈ t.minted) (he : u ≠ []) (hnew : since (generationToken u n) = none)
    (hl : ∀ m, ∀ a ∈ since (generationToken u m), m ≤ n)
    (hpc : (∀ w ∈ t.writes, w.advancedAt ≤ s.clock) →
      t.Stands (update since (generationToken u n) (some s.clock)) pc) :
    ∃ since', Knows t since' := by
  refine ⟨_, h.move hc hg hnew rfl hu he hi hl hr hm han ?_⟩
  rw [hcs]
  refine forall_update (I := fun _ (pc : MarkerPc K π) => t.Stands _ pc) (fun d => ?_)
    (hpc fun w hw => ?_)
  · refine (h.calls d).mono (hc ▸ Nat.le_succ _) (fun token a ha => ?_)
      (hg ▸ keepsSeen_of_stands (.push _ _))
      fun w hw => (hr w hw).imp id fun hw => ge_of_eq hw.2
    rcases eq_or_ne token (generationToken u n) with rfl | he
    · exact absurd ha (hnew ▸ nofun)
    · rwa [update_of_ne he]
  rcases hr w hw with hw | hw
  · exact (h.writes w hw).2.le
  · exact hw.2.le

omit [DecidableEq π] [DecidableEq Λ] in
lemma Knows.seed {u : Text} (hm : s.Mints u) :
    ∃ since', Knows { s.seed c p k u with clock := s.clock + 1 } since' := by
  unfold MarkerRun.seed
  dsimp only
  split
  · rename_i generation hc
    obtain ⟨-, rfl⟩ := KvKey.create_eq_some_iff.1 hc
    have hnone := h.since_of_mints hm
    refine h.push rfl rfl rfl rfl rfl (subset_cons_self ..) (fun w hw => .inl hw)
      (mem_cons_self ..) hm.1 (hnone 0) (fun m a ha => absurd ha (hnone m ▸ nofun)) ?_
    intro hr
    exact ⟨Nat.lt_succ_self _, s.clock, by rw [update_self]; rfl, fun w hw _ => hr w hw⟩
  · exact ⟨since, (h.mint u).next trivial⟩

omit [DecidableEq π] [DecidableEq Λ] in
/-- The swap of an advance writes a new token: of an incarnation of its own, or the one after the
token it found, which no other advance followed. -/
lemma Knows.swap {u : Text} {committedAt : ℕ} {entry : Option (Text × ℕ)}
    (hpc : s.Stands since (.advancing k committedAt entry : MarkerPc K π))
    (hsw : s.swap c k committedAt u entry = some t) :
    ∃ since', Knows { t with clock := s.clock + 1 } since' := by
  obtain ⟨hc, he⟩ := hpc
  have hl : committedAt < s.clock + 1 := hc.trans (Nat.lt_succ_self _)
  have hr : ∀ w ∈ s.writes ++ [⟨k, committedAt, s.clock⟩],
      w ∈ s.writes ∨ w.committedAt < s.clock ∧ w.advancedAt = s.clock := by
    intro w hw
    rcases mem_append.1 hw with hw | hw
    · exact .inl hw
    obtain rfl := mem_singleton.1 hw
    exact .inr ⟨hc, rfl⟩
  cases entry with
  | none =>
    obtain ⟨hm, hsw⟩ := ite_none_right_eq_some.1 hsw
    have hnone := h.since_of_mints hm
    split at hsw
    · rename_i generation hcr
      obtain ⟨-, rfl⟩ := KvKey.create_eq_some_iff.1 hcr
      cases hsw
      exact h.push rfl rfl rfl rfl rfl (subset_cons_self ..) hr
        (mem_cons_self ..) hm.1 (hnone 1) (fun m a ha => absurd ha (hnone m ▸ nofun))
        fun _ => trivial
    cases hsw
    exact ⟨since, (h.mint u).next hl⟩
  | some e =>
    obtain ⟨raw, rev⟩ := e
    obtain ⟨-, hsa⟩ := he _ rfl
    simp only [MarkerRun.swap] at hsw
    split at hsw
    · cases hsw
      exact ⟨since, h.next trivial⟩
    · cases hsw
      exact ⟨since, h.next trivial⟩
    rename_i current count hsp
    split at hsw
    · rename_i generation hu
      obtain ⟨hrev, rfl⟩ := KvKey.update_eq_some_iff.1 hu
      cases hsw
      have hva : s.generation.value = some raw := hsa.holds hrev
      obtain ⟨a, ha, -⟩ := h.current raw hva
      obtain ⟨v, hv, hvn, n, rfl⟩ := h.tokens raw a ha
      rw [splitGenerationToken_generationToken hvn] at hsp
      cases hsp
      have hle : ∀ m, ∀ a ∈ since (generationToken current m), m ≤ count :=
        fun m => h.latest current count m hva
      have hnew : since (generationToken current (count + 1)) = none := by
        by_contra hsome
        obtain ⟨b, hb⟩ := ne_none_iff_exists'.1 hsome
        exact absurd (hle _ b hb) (Nat.not_succ_le_self count)
      exact h.push rfl rfl rfl rfl rfl (fun _ hv => hv) hr hv hvn hnew
        (fun m a ha => (hle m a ha).trans (Nat.le_succ _)) fun _ => trivial
    cases hsw
    exact ⟨since, h.next hl⟩

omit [DecidableEq π] [DecidableEq Λ] [DecidableEq ι] in
lemma Knows.learned (hva : s.generation.value = some token) :
    { s with clock := s.clock + 1 }.Stands since (s.learned p k token) := by
  unfold MarkerRun.learned
  split
  · obtain ⟨a, ha, hl⟩ := h.current token hva
    exact ⟨Nat.lt_succ_self _, a, ha, fun w hw _ => hl w hw⟩
  · exact nofun
  · exact trivial

end

omit [DecidableEq K] [DecidableEq π] [DecidableEq Λ] [DecidableEq ι] in
lemma stands_getEntry {committedAt : ℕ} (h : committedAt < s.clock) :
    { s with clock := s.clock + 1 }.Stands since
      (.advancing k committedAt s.generation.getEntry : MarkerPc K π) := by
  refine ⟨h.trans (Nat.lt_succ_self _), fun e he => ?_⟩
  obtain ⟨v, hv, rfl⟩ := map_eq_some_iff.1 he
  have hpos := s.generation.revision_pos (by rw [hv]; rfl)
  exact ⟨hpos, fun r hr => by cases hr; exact s.generation.revision_le, fun _ => hv⟩

omit [DecidableEq ι] in
/-- A marker that answers was read from L3 after its token was written, and the writers whose
advances the token covers wrote before. -/
lemma Knows.answer (h : Knows s since) {learnedAt : ℕ}
    (hpc : s.Stands since (.checking p k token learnedAt : MarkerPc K π))
    (hm : (s.markerMatches cfg p k token now).2 = some m) :
    learnedAt < s.clock ∧ ∀ w ∈ s.writes, w.advancedAt < learnedAt → w.committedAt < m.readAt := by
  obtain ⟨hl, a, ha, hal⟩ := hpc
  obtain ⟨hheld, rfl⟩ := held_of_markerMatches hm
  obtain ⟨b, hb, hle⟩ := h.markers _ _ m hheld
  cases mem_unique ha hb
  refine ⟨hl, fun w hw hlt => ?_⟩
  calc w.committedAt < w.advancedAt := (h.writes w hw).1
    _ ≤ a := hal w hw hlt
    _ ≤ m.readAt := hle

theorem Knows.act {e : MarkerEvent K π Λ ι} (h : Knows s since) (hact : s.act cfg e = some t) :
    ∃ since', Knows { t with clock := s.clock + 1 } since' := by
  cases e with (simp only [MarkerRun.act] at hact; try cases hact)
  | read c p k | found c =>
    split at hact <;> cases hact
    exact ⟨since, h.next trivial⟩
  | learn =>
    split at hact <;> cases hact
    · exact ⟨since, h.next (h.learned ‹_›)⟩
    · exact ⟨since, h.next trivial⟩
    · exact ⟨since, h.next (h.learned ‹_›)⟩
    · exact ⟨since, h.next nofun⟩
  | seed =>
    split at hact
    · obtain ⟨hi, hact⟩ := ite_none_right_eq_some.1 hact
      cases hact
      exact h.seed hi
    · cases hact
  | unlearned => split at hact <;> cases hact <;> exact ⟨since, h.next nofun⟩
  | check c now =>
    split at hact
    · rename_i p k token learnedAt hc
      have hpc := hc ▸ h.calls c
      have hr : Remarks s (s.markerMatches cfg p k token now).1 fun _ => False :=
        remarks_markerMatches
      split at hact <;> rename_i u found hma <;> rw [hma] at hr <;> cases hact
      · refine ⟨since, h.turn hr (fun _ hm => hm.elim) trivial fun a ha => ?_⟩
        rcases mem_append.1 ha with ha | ha
        · exact .inl ha
        obtain rfl := mem_singleton.1 ha
        exact .inr (h.answer hpc (congrArg Prod.snd hma))
      obtain ⟨-, a, ha, -⟩ := hpc
      refine ⟨since, h.turn hr (fun _ hm => hm.elim) ?_ fun a ha => .inl (hr.answers ▸ ha)⟩
      rintro _ ⟨⟩
      exact ⟨a, ha⟩
    · cases hact
  | missed c =>
    split at hact
    · rename_i p k generation hc
      have hpc := hc ▸ h.calls c
      obtain ⟨-, hact⟩ := ite_none_right_eq_some.1 hact
      split at hact <;> cases hact
      · rename_i token
        obtain ⟨a, ha⟩ := hpc token rfl
        exact ⟨since, h.next ⟨a, ha, (h.past _ a ha).le⟩⟩
      · exact ⟨since, h.next trivial⟩
    · cases hact
  | record c now =>
    split at hact <;> cases hact
    rename_i p k token readAt hc
    obtain ⟨a, ha, hle⟩ := hc ▸ h.calls c
    have hr : Remarks s (s.writeMarker cfg p k token readAt now)
        fun m => m.generation = token ∧ m.readAt = readAt := remarks_writeMarker
    refine ⟨since, h.turn hr ?_ trivial fun a ha => .inl (hr.answers ▸ ha)⟩
    rintro m ⟨rfl, rfl⟩
    exact ⟨a, ha, hle⟩
  | commit _ k live =>
    split at hact <;> cases hact
    have hr : Remarks s { s with rows := update s.rows k live } fun _ => False :=
      ⟨rfl, rfl, rfl, rfl, rfl, rfl, fun _ _ _ hm => .inl hm⟩
    exact ⟨since, h.turn hr (fun _ hm => hm.elim) (Nat.lt_succ_self s.clock) fun _ ha => .inl ha⟩
  | getEntry c =>
    split at hact <;> cases hact
    rename_i hc
    have hpc := hc ▸ h.calls c
    exact ⟨since, h.next (stands_getEntry hpc)⟩
  | swap c =>
    split at hact
    · rename_i hc
      exact h.swap (hc ▸ h.calls c) hact
    · cases hact
  | fail => exact ⟨since, h.next trivial⟩
  | expire =>
    exact ⟨since, h.pass rfl rfl rfl rfl rfl (fun _ ht => ht) (fun _ _ _ hsa => hsa)
      fun _ _ _ hm => hm⟩
  | clear l k =>
    have hr : Remarks s (s.setMarkers l ((s.markers l).erase k)) fun _ => False :=
      remarks_setMarkers fun _ _ hm => .inl (mem_get_filter hm)
    exact ⟨since, h.pass rfl rfl rfl rfl rfl (fun _ ht => ht) (fun _ _ _ hsa => hsa)
      fun l k m hm => (hr.markers l k m hm).resolve_right id⟩
  | foreign =>
    exact ⟨since, h.pass rfl rfl rfl rfl rfl (fun _ ht => ht) (keepsSeen_of_stands (.foreign _))
      fun _ _ _ hm => hm⟩
  | emptied =>
    exact ⟨since, h.pass rfl rfl rfl rfl rfl nofun (keepsSeen_lapse _) fun _ _ _ hm => hm⟩

/-- However markers are recorded, dropped, evicted past the cap and expired, and the generation
moved by any writers and renewed when its bucket is emptied: a read that learnt the generation after
a writer's advance was done is answered from a marker only if the marker's own read of L3 ran after
that writer's commit. -/
theorem absence_after_commit {rows : K → Bool} {es : List (MarkerEvent K π Λ ι)}
    (hrun : (system cfg).run (start rows) es = some s) :
    ∀ a ∈ s.answers, ∀ w ∈ s.writes, w.key = a.key → w.advancedAt < a.learnedAt →
      w.committedAt < a.readAt := by
  have hk : ∃ since, Knows s since := by
    refine StepSystem.run_invariant _ (I := fun s => ∃ since, Knows s since)
      (fun s e t h ht => ?_) ⟨_, .start rows⟩ hrun
    obtain ⟨since, h⟩ := h
    obtain ⟨u, hact, rfl⟩ := map_eq_some_iff.1 ht
    exact h.act hact
  obtain ⟨since, h⟩ := hk
  intro a ha w hw _ hlt
  exact (h.answers a ha).2 w hw hlt

/-- An absence is recorded and answered until a writer commits the row; the row is deleted, and its
absence is recorded and answered again. -/
def absentTwice : List (MarkerEvent Unit Unit Unit Bool) :=
  [.read true () (), .learn true, .seed true ['a'], .check true 0, .missed true, .record true 0,
    .read true () (), .learn true, .check true 1,
    .commit false () true, .getEntry false, .swap false [],
    .read true () (), .learn true, .check true 2, .found true,
    .commit false () false, .getEntry false, .swap false [],
    .read true () (), .learn true, .check true 3, .missed true, .record true 3,
    .read true () (), .learn true, .check true 4]

def oneMarker : MarkerConfig Unit Unit := ⟨id, 10, 1⟩

theorem absence_after_commit_absentTwice :
    ∃ s, (system oneMarker).run (start fun _ => false) absentTwice = some s ∧
      s.answers = [⟨(), 7, 4⟩, ⟨(), 25, 22⟩] ∧ s.writes = [⟨(), 9, 11⟩, ⟨(), 16, 18⟩] ∧
      ∀ a ∈ s.answers, ∀ w ∈ s.writes, w.key = a.key → w.advancedAt < a.learnedAt →
        w.committedAt < a.readAt := by
  refine StepSystem.exists_run_imp _ (p := fun s => s.answers = [⟨(), 7, 4⟩, ⟨(), 25, 22⟩] ∧
    s.writes = [⟨(), 9, 11⟩, ⟨(), 16, 18⟩]) (by decide +kernel) fun s hr hs => ?_
  exact ⟨hs.1, hs.2, absence_after_commit hr⟩

end MarkerRun

end ThreeTears
