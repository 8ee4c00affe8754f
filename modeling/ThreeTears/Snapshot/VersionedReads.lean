import ThreeTears.Snapshot.VersionedL1

/-!
# A versioned read is exactly its epochs

While no call holds the lock the L1 has every scope at the epoch of the pointer recorded for it,
with the rows of that epoch. A call that holds the lock knows what it has changed since.
-/

namespace ThreeTears

open Function Option StepSystem SnapshotRows VersionedL1

variable {K T O R κ : Type*}

namespace SnapshotRows

variable (x : SnapshotRows K T O R)

def heldAt (k : K) (epoch : Option Nat) (t : T) : Finset R := epoch.elim ∅ fun e => x.rows k e t

def Exact (l : L1Rows K T R) (k : K) : Prop := ∀ t, l.rows k t = x.heldAt k (l.held k) t

variable [DecidableEq R]

def FetchedNames (k : K) (f : Fetched T O) : Prop := x.Names k f.current ∧ ∀ h ∈ f.held, x.Names k h

variable {x} {k : K} {l : L1Rows K T R} {p : Pointer T O}

lemma fetched_update [DecidableEq K] {got : K → Option (Fetched T O)} {o : Option (Fetched T O)}
    (h : ∀ k, ∀ f ∈ got k, x.FetchedNames k f) (ho : ∀ f ∈ o, x.FetchedNames k f) :
    ∀ k', ∀ f ∈ update got k o k', x.FetchedNames k' f :=
  forall_update (I := fun k' (o : Option (Fetched T O)) => ∀ f ∈ o, x.FetchedNames k' f) h ho

lemma rowsOf_append (names names' : List O) :
    x.rowsOf (names ++ names') = x.rowsOf names ∪ x.rowsOf names' := by
  induction names with
  | nil => simp [rowsOf]
  | cons _ _ ih =>
    simp only [rowsOf, List.cons_append, List.foldr_cons] at ih ⊢
    rw [ih, Finset.union_assoc]

variable [DecidableEq O]

lemma apply_fetch {held : Option (Pointer T O)} {rows : T → Finset R} (hp : x.Names k p)
    (hheld : ∀ h ∈ held, x.Names k h ∧ ∀ t, rows t = x.rows k h.epoch t) (t : T) :
    Part.apply (rows t) (x.fetch p held t) = x.rows k p.epoch t := by
  cases held with
  | none => exact hp t
  | some h =>
    obtain ⟨hna, hr⟩ := hheld h rfl
    simp only [fetch]
    split_ifs with hc hsa hl
    · -- nothing to fetch
      rw [Part.apply, hr t]
      obtain ⟨hb, hi⟩ | he := hsa
      · rw [← hna t, ← hp t, Chain.names, Chain.names, hb, hi]
      · rw [he]
    · -- the chain held is a leading run of the new one
      obtain ⟨hb, hi⟩ := hl
      have hsp : (p.tables t).names = (h.tables t).names ++
          ((p.tables t).pieces.drop (h.tables t).pieces.length).map Piece.name := by
        have hap : (h.tables t).pieces ++ (p.tables t).pieces.drop (h.tables t).pieces.length =
            (p.tables t).pieces := by
          calc
            _ = (p.tables t).pieces.take (h.tables t).pieces.length ++
                (p.tables t).pieces.drop (h.tables t).pieces.length := by rw [hi]
            _ = (p.tables t).pieces := List.take_append_drop _ _
        rw [Chain.names, Chain.names, hb, List.cons_append, ← List.map_append, hap]
      simp only [Part.apply, if_true]
      rw [← hp t, hsp, rowsOf_append, hna t, hr t]
    · exact hp t
    · exact hp t

end SnapshotRows

/-- The call is not cancelled here: not while it awaits a commit, and not while a whole publish
writes its chunks. -/
def L1Pc.mayFail : L1Pc K T O → Bool
  | .committing _ | .committed _ | .writing _ _ => false
  | _ => true

def L1Pc.holdsLock : L1Pc K T O → Bool
  | .idle | .gathering _ | .retrying _ => false
  | _ => true

def L1Pc.mayRefuse : L1Pc K T O → Bool
  | .committing (.drop _) => false
  | _ => true

namespace VersionedL1

/-- No call fails between a commit to the L1 and the record of the pointer it was of. -/
def Undisturbed (s : VersionedL1 K T O R κ) : κ × L1Act K T O → Prop
  | (c, .fail) => (s.calls c).mayFail
  | (c, .refuse) => (s.calls c).mayRefuse
  | _ => True

instance (s : VersionedL1 K T O R κ) (a) : Decidable (s.Undisturbed a) := by
  unfold Undisturbed
  split <;> infer_instance

def Synced (s : VersionedL1 K T O R κ) (k : K) : Prop :=
  s.l1.held k = (s.applied k).map Pointer.epoch

/-- No epoch went back, except of a scope that was dropped. -/
def Onward (s s' : VersionedL1 K T O R κ) : Prop :=
  ∀ k, s.dropped k ≤ s'.dropped k ∧
    (s'.dropped k = s.dropped k → ∀ e ∈ s.l1.held k, ∃ e' ∈ s'.l1.held k, e ≤ e')

variable {x : SnapshotRows K T O R} {s s' : VersionedL1 K T O R κ} {pc : L1Pc K T O}

lemma Onward.of_eq (hl1 : s'.l1 = s.l1) (hd : s'.dropped = s.dropped) : s.Onward s' :=
  fun k => ⟨by rw [hd], fun _ e he => ⟨e, by rw [hl1]; exact he, le_rfl⟩⟩

lemma Onward.trans {s₁ s₂ : VersionedL1 K T O R κ} (h : s.Onward s₁) (h' : s₁.Onward s₂) :
    s.Onward s₂ := by
  intro k
  obtain ⟨hle, hheld⟩ := h k
  obtain ⟨hl', hh'⟩ := h' k
  refine ⟨hle.trans hl', fun hsa e he => ?_⟩
  obtain ⟨e₁, he₁, hee₁⟩ := hheld (by omega) e he
  obtain ⟨e₂, he₂, hee₂⟩ := hh' (by omega) e₁ he₁
  exact ⟨e₂, he₂, hee₁.trans hee₂⟩

variable {k : K}

lemma Synced.congr (h : s.Synced k) (hl1 : s'.l1 = s.l1)
    (hap : s'.applied = s.applied) : s'.Synced k := by
  rw [Synced, hl1, hap]
  exact h

variable {p : Pointer T O}

lemma Synced.rows (h : s.Synced k) (he : x.Exact s.l1 k)
    (hp : s.applied k = some p) (t : T) : s.l1.rows k t = x.rows k p.epoch t := by
  rw [he t, h, hp]
  rfl

lemma Synced.le_of_supersedes (h : s.Synced k)
    (hp : p.Supersedes (s.applied k)) : ∀ e ∈ s.l1.held k, e ≤ p.epoch := by
  intro e he
  rw [h] at he
  obtain ⟨q, hq, rfl⟩ := map_eq_some_iff.1 he
  obtain hlt | ⟨heq, -⟩ := hp q hq
  · exact hlt.le
  · exact heq.ge

lemma synced_apply [DecidableEq K] (ho : ∀ k', k' ≠ k → s.Synced k')
    (hheld : s.l1.held k = some p.epoch) (k' : K) : (s.apply k p).Synced k' := by
  obtain rfl | hk := eq_or_ne k' k
  · simp [Synced, apply, hheld]
  simp only [Synced, apply, update_of_ne hk]
  exact ho k' hk

variable [DecidableEq R]

def Ready (x : SnapshotRows K T O R) (s : VersionedL1 K T O R κ) : L1Job K T O → Prop
  | .batch fresh => (∀ k, s.Synced k) ∧ ∀ k, ∀ f ∈ fresh k, x.FetchedNames k f ∧
    s.applied k = f.held ∧ f.current.Supersedes f.held
  | .one k f left => (∀ k, s.Synced k) ∧ x.FetchedNames k f ∧
    (f.held = none ∨ s.applied k = f.held) ∧ f.current.Supersedes (s.applied k) ∧
    ∀ k, ∀ f ∈ left k, x.FetchedNames k f
  | .publish k epoch => (∀ k, s.Synced k) ∧ ∀ q ∈ s.applied k, q.epoch ≤ epoch
  | .add k epoch after added p => (∀ k, s.Synced k) ∧ (∀ t, added t → x.appendOnly t) ∧
    (s.applied k = none ∧ after = 0 ∨ ∃ q ∈ s.applied k, q.epoch = after ∧ after ≤ epoch) ∧
    x.Names k p ∧ p.epoch = epoch
  | .drop scopes => ∀ k, (k ∉ scopes → s.Synced k) ∧ (k ∈ scopes → s.applied k = none)

def Done (x : SnapshotRows K T O R) (s : VersionedL1 K T O R κ) : L1Job K T O → Prop
  | .batch fresh => ∀ k, (fresh k = none → s.Synced k) ∧
    ∀ f ∈ fresh k, s.l1.held k = some f.current.epoch ∧ x.Names k f.current
  | .one k f left => (∀ k', k' ≠ k → s.Synced k') ∧ s.l1.held k = some f.current.epoch ∧
    x.Names k f.current ∧ ∀ k, ∀ f ∈ left k, x.FetchedNames k f
  | .publish k epoch => (∀ k', k' ≠ k → s.Synced k') ∧ s.l1.held k = some epoch
  | .add k _ _ _ p => (∀ k', k' ≠ k → s.Synced k') ∧ s.l1.held k = some p.epoch ∧ x.Names k p
  | .drop _ => ∀ k, s.Synced k

def Knows (x : SnapshotRows K T O R) (s : VersionedL1 K T O R κ) : L1Pc K T O → Prop
  | .idle => True
  | .gathering got | .retrying got => ∀ k, ∀ f ∈ got k, x.FetchedNames k f
  | .adding k epoch after added => (∀ k, s.Synced k) ∧ (∀ t, added t → x.appendOnly t) ∧
    (s.applied k = none ∧ after = 0 ∨ ∃ q ∈ s.applied k, q.epoch = after ∧ after ≤ epoch)
  | .committing job => s.Ready x job
  | .committed job => s.Done x job
  | .writing k epoch => (∀ k', k' ≠ k → s.Synced k') ∧ s.l1.held k = some epoch
  | .moving => ∀ k, s.Synced k

structure Inv (x : SnapshotRows K T O R) (s : VersionedL1 K T O R κ) : Prop where
  exact : ∀ k, x.Exact s.l1 k
  named : ∀ k, ∀ p ∈ s.applied k, x.Names k p
  free : s.lock = none → ∀ k, s.Synced k
  lock : ∀ c, (s.calls c).holdsLock → s.lock = some c
  knows : ∀ c, s.Knows x (s.calls c)
  orphans : ∀ c, s.orphans c = none

lemma Inv.start : (start : VersionedL1 K T O R κ).Inv x where
  exact _ _ := rfl
  named := by rintro k p ⟨⟩
  free _ _ := rfl
  lock := by rintro c ⟨⟩
  knows _ := trivial
  orphans _ := rfl

lemma Knows.of_unlocked (h : s.Knows x pc) (hpc : pc.holdsLock = false) : s'.Knows x pc := by
  cases pc with
  | idle => trivial
  | gathering | retrying => exact h
  | _ => cases hpc

lemma Knows.congr (h : s.Knows x pc) (hl1 : s'.l1 = s.l1) (hap : s'.applied = s.applied) :
    s'.Knows x pc := by
  have hy : s'.Synced = s.Synced :=
    funext fun k => propext ⟨fun h => h.congr hl1.symm hap.symm, fun h => h.congr hl1 hap⟩
  cases pc with
  | idle => trivial
  | gathering | retrying => exact h
  | committing job => cases job <;> simpa only [Knows, Ready, hy, hap] using h
  | committed job => cases job <;> simpa only [Knows, Done, hy, hl1] using h
  | _ => simpa only [Knows, hy, hl1, hap] using h

lemma Ready.refused {job : L1Job K T O} (h : s.Ready x job) (ho : (L1Pc.committing job).mayRefuse) :
    (∀ k, s.Synced k) ∧ (refused job).holdsLock = false ∧ s.Knows x (refused job) := by
  cases job with
  | batch => exact ⟨h.1, rfl, fun k f hf => (h.2 k f hf).1⟩
  | one => exact ⟨h.1, rfl, h.2.2.2.2⟩
  | publish k epoch | add k epoch after added p => exact ⟨h.1, rfl, trivial⟩
  | drop => cases ho

section Calls

variable [DecidableEq κ] {c : κ} (h : s.Inv x)
include h

lemma Inv.setPc (hlock : pc.holdsLock → s.lock = some c) (hk : s.Knows x pc) :
    (s.setPc c pc).Inv x where
  __ := h
  free hfree k := (h.free hfree k).congr rfl rfl
  lock := forall_update (I := fun c (pc : L1Pc K T O) => pc.holdsLock → s.lock = some c) h.lock
    hlock
  knows := forall_update (I := fun _ (pc' : L1Pc K T O) => (s.setPc c pc).Knows x pc')
    (fun c' => (h.knows c').congr rfl rfl) (hk.congr rfl rfl)

lemma Inv.move (pc : L1Pc K T O) (hown : s.lock = none ∨ s.lock = some c)
    (hcs : s'.calls = update s.calls c pc) (ho : s'.orphans = s.orphans)
    (he : ∀ k, x.Exact s'.l1 k) (hna : ∀ k, ∀ p ∈ s'.applied k, x.Names k p)
      (hfree : s'.lock = none → ∀ k, s'.Synced k)
    (hlock : pc.holdsLock → s'.lock = some c) (hk : s'.Knows x pc) : s'.Inv x := by
  have ht : ∀ c', c' ≠ c → (s.calls c').holdsLock = false := by
    intro c' hne
    by_contra hh
    have hl' := h.lock c' (by simpa using hh)
    obtain hnone | hc := hown
    · cases hnone.symm.trans hl'
    cases hc.symm.trans hl'
    exact hne rfl
  refine ⟨he, hna, hfree, ?_, ?_, by rw [ho]; exact h.orphans⟩
  · intro c' hc'
    rw [hcs] at hc'
    obtain rfl | hne := eq_or_ne c' c
    · rw [update_self] at hc'
      exact hlock hc'
    rw [update_of_ne hne, ht c' hne] at hc'
    cases hc'
  intro c'
  rw [hcs]
  obtain rfl | hne := eq_or_ne c' c
  · rw [update_self]
    exact hk
  rw [update_of_ne hne]
  exact (h.knows c').of_unlocked (ht c' hne)

lemma Inv.locked (hlock : s.lock = none) (hk : s.Knows x pc) : (s.locked c pc).Inv x :=
  h.move pc (.inl hlock) rfl rfl h.exact h.named (fun hfree => by cases hfree) (fun _ => rfl)
    (hk.congr rfl rfl)

lemma Inv.unlocked (hlock : s.lock = some c) (hy : ∀ k, s.Synced k)
    (hpc : pc.holdsLock = false) (hk : s.Knows x pc) : (s.unlocked c pc).Inv x :=
  h.move pc (.inr hlock) rfl rfl h.exact h.named (fun _ k => (hy k).congr rfl rfl)
    (fun hh => by cases hpc.symm.trans hh) (hk.congr rfl rfl)

end Calls

variable [DecidableEq K]

lemma named_apply {p : Pointer T O} (hna : ∀ k, ∀ p ∈ s.applied k, x.Names k p)
    (hp : x.Names k p) : ∀ k', ∀ q ∈ (s.apply k p).applied k', x.Names k' q :=
  forall_update (I := fun k' (o : Option (Pointer T O)) => ∀ q ∈ o, x.Names k' q) hna
    (by rintro q ⟨⟩; exact hp)

variable [DecidableEq O] {job : L1Job K T O}

lemma Ready.change (h : s.Ready x job) (hx : ∀ k, x.Exact s.l1 k)
    {ch : ScopeChange T R} (hc : x.change job k = some ch) :
    (∀ t, Part.apply (s.l1.rows k t) (ch.parts t) = x.heldAt k ch.epoch t) ∧
      ∀ e' ∈ ch.epoch, ∀ e ∈ s.l1.held k, e ≤ e' := by
  cases job with
  | batch =>
    obtain ⟨f, hf, rfl⟩ := map_eq_some_iff.1 hc
    obtain ⟨hna, hap, hu⟩ := h.2 k f hf
    refine ⟨apply_fetch hna.1 fun h' hh' => ⟨hna.2 h' hh', ?_⟩, ?_⟩
    · exact (h.1 k).rows (hx k) (hap.trans hh')
    rintro e' ⟨⟩
    exact (h.1 k).le_of_supersedes (hap ▸ hu)
  | one =>
    obtain ⟨hy, hna, hheld, hu, -⟩ := h
    simp only [change] at hc
    split_ifs at hc with hk
    subst hk
    cases hc
    refine ⟨apply_fetch hna.1 fun h' hh' => ⟨hna.2 h' hh', ?_⟩, ?_⟩
    · obtain hnone | hap := hheld
      · rw [hnone] at hh'
        cases hh'
      · exact (hy k).rows (hx k) (hap.trans hh')
    rintro e' ⟨⟩
    exact (hy k).le_of_supersedes hu
  | publish =>
    simp only [change] at hc
    split_ifs at hc with hk
    subst hk
    cases hc
    refine ⟨fun t => rfl, ?_⟩
    rintro e' ⟨⟩ e he
    rw [h.1 k] at he
    obtain ⟨q, hq, rfl⟩ := map_eq_some_iff.1 he
    exact h.2 q hq
  | add _ epoch after =>
    obtain ⟨hy, hd, haf, -⟩ := h
    simp only [change] at hc
    split_ifs at hc with hk
    subst hk
    cases hc
    have hr : (∀ t, s.l1.rows k t = x.rows k after t) ∧ after ≤ epoch ∧
        ∀ e ∈ s.l1.held k, e ≤ epoch := by
      obtain ⟨hnone, rfl⟩ | ⟨q, hq, rfl, hle⟩ := haf
      · have hheld : s.l1.held k = none := by rw [hy k, hnone, map_none]
        refine ⟨fun t => ?_, Nat.zero_le _, by simp [hheld]⟩
        rw [hx k t, hheld, x.zero]
        rfl
      refine ⟨(hy k).rows (hx k) hq, hle, fun e he => ?_⟩
      have hq : s.applied k = some q := hq
      rw [hy k, hq] at he
      cases he
      exact hle
    refine ⟨fun t => ?_, ?_⟩
    · simp only
      split_ifs with ht
      · simp only [Part.apply, if_true, hr.1 t]
        exact Finset.union_sdiff_of_subset (x.grows k t (hd t ht) hr.2.1)
      · rfl
    rintro e' ⟨⟩
    exact hr.2.2
  | drop =>
    simp only [change] at hc
    split_ifs at hc with hk
    cases hc
    exact ⟨fun t => rfl, by rintro e' ⟨⟩⟩

lemma exact_swap (h : s.Ready x job) (he : ∀ k, x.Exact s.l1 k) (k : K) :
    x.Exact (s.l1.swap (x.change job)) k := by
  intro t
  simp only [L1Rows.swap]
  cases hc : x.change job k with
  | none => exact he k t
  | some => exact (h.change he hc).1 t

lemma held_swap (h : s.Ready x job) (hx : ∀ k, x.Exact s.l1 k) (k : K) :
    (s.swap x job).dropped k = s.dropped k + 1 ∨ (s.swap x job).dropped k = s.dropped k ∧
      ∀ e ∈ s.l1.held k, ∃ e' ∈ (s.swap x job).l1.held k, e ≤ e' := by
  simp only [swap, L1Rows.swap]
  cases hc : x.change job k with
  | none => exact .inr ⟨rfl, fun e he => ⟨e, he, le_rfl⟩⟩
  | some ch =>
    obtain ⟨epoch, parts⟩ := ch
    cases epoch with
    | none => exact .inl rfl
    | some e' => exact .inr ⟨rfl, fun e he => ⟨e', rfl, (h.change hx hc).2 e' rfl e he⟩⟩

lemma Synced.swap (h : s.Synced k) (hc : x.change job k = none) : (s.swap x job).Synced k := by
  simp only [Synced, VersionedL1.swap, L1Rows.swap, hc]
  exact h

lemma held_of_change {ch : ScopeChange T R}
    (hc : x.change job k = some ch) : (s.swap x job).l1.held k = ch.epoch := by
  simp only [swap, L1Rows.swap, hc]
  rfl

lemma Ready.swap (h : s.Ready x job) : (s.swap x job).Done x job := by
  cases job with
  | batch fresh =>
    refine fun k => ⟨fun hnone => (h.1 k).swap ?_, fun f hf => ⟨?_, (h.2 k f hf).1.1⟩⟩
    · simp [SnapshotRows.change, hnone]
    have hc : x.change (.batch fresh) k = some (x.fetched f) := map_eq_some_iff.2 ⟨f, hf, rfl⟩
    exact held_of_change hc
  | one k f left =>
    refine ⟨fun k' hk => (h.1 k').swap (by simp [SnapshotRows.change, hk]), ?_, h.2.1.1, h.2.2.2.2⟩
    have hc : x.change (.one k f left) k = some (x.fetched f) := if_pos rfl
    exact held_of_change hc
  | publish k epoch =>
    refine ⟨fun k' hk => (h.1 k').swap (by simp [SnapshotRows.change, hk]), ?_⟩
    have hc : x.change (.publish k epoch) k = some _ := if_pos rfl
    exact held_of_change hc
  | add k _ after added p =>
    obtain ⟨hy, -, -, hp, rfl⟩ := h
    refine ⟨fun k' hk => (hy k').swap (by simp [SnapshotRows.change, hk]), ?_, hp⟩
    have hc : x.change (.add k p.epoch after added p) k = some _ := if_pos rfl
    exact held_of_change hc
  | drop scopes =>
    intro k
    by_cases hk : k ∈ scopes
    · have hc : x.change (.drop scopes : L1Job K T O) k = some _ := if_pos hk
      rw [Synced, held_of_change hc]
      simp [swap, (h k).2 hk]
    · exact ((h k).1 hk).swap (by simp [SnapshotRows.change, hk])

variable [DecidableEq κ] {c : κ}

omit [DecidableEq O] in
lemma Inv.resumed (h : s.Inv x) (hpc : s.calls c = .committed job) : (s.resumed c job).Inv x := by
  have hlock : s.lock = some c := h.lock c (by rw [hpc]; rfl)
  have hd : s.Done x job := by
    have hk := h.knows c
    rwa [hpc] at hk
  cases job with
  | batch fresh =>
    have hr : ∀ k, (s.resumed c (.batch fresh)).Synced k ∧
        ∀ p ∈ (s.resumed c (.batch fresh)).applied k, x.Names k p := by
      intro k
      simp only [Synced, resumed]
      cases hf : fresh k with
      | none => exact ⟨(hd k).1 hf, h.named k⟩
      | some f =>
        obtain ⟨hheld, hna⟩ := (hd k).2 f hf
        refine ⟨hheld, ?_⟩
        rintro p ⟨⟩
        exact hna
    exact h.move .idle (.inr hlock) rfl rfl h.exact (fun k => (hr k).2)
      (fun _ k => (hr k).1) (fun hh => by cases hh) trivial
  | one _ _ left =>
    obtain ⟨ho, hheld, hna, hl⟩ := hd
    exact h.move (.retrying left) (.inr hlock) rfl rfl h.exact (named_apply h.named hna)
      (fun _ k' => synced_apply ho hheld k') (fun hh => by cases hh) hl
  | publish => exact h.setPc (fun _ => hlock) hd
  | add =>
    obtain ⟨ho, hheld, hna⟩ := hd
    exact h.move .idle (.inr hlock) rfl rfl h.exact (named_apply h.named hna)
      (fun _ k' => synced_apply ho hheld k') (fun hh => by cases hh) trivial
  | drop => exact h.unlocked hlock hd rfl trivial

variable [Fintype T]

theorem Inv.step {a : L1Act K T O} (h : s.Inv x) (ho : s.Undisturbed (c, a))
    (hmv : s.Moves x c a s') : s'.Inv x ∧ s.Onward s' := by
  have hkn := h.knows c
  have hlock := h.lock c
  cases hmv with
  | fetch k _ got hpc hp =>
    have hg : ∀ k, ∀ f ∈ got k, x.FetchedNames k f := by
      obtain hpc | ⟨-, rfl⟩ := hpc
      · rw [hpc] at hkn
        exact hkn
      · simp
    refine ⟨h.setPc (fun hh => by cases hh) ?_, .of_eq rfl rfl⟩
    exact fetched_update hg (by rintro f ⟨⟩; exact ⟨hp, h.named k⟩)
  | commitBatch _ hpc hfree =>
    refine ⟨h.locked hfree ⟨h.free hfree, fun k f hf => ?_⟩, .of_eq rfl rfl⟩
    obtain ⟨hf, hr⟩ := filter_eq_some_iff.1 hf
    rw [hpc] at hkn
    exact ⟨hkn k f hf, of_decide_eq_true hr⟩
  | commitOne k f _ hpc hfree hf hr =>
    rw [hpc] at hkn
    refine ⟨h.locked hfree ⟨h.free hfree, hkn k f hf, .inr hr.1, hr.1 ▸ hr.2, ?_⟩, .of_eq rfl rfl⟩
    exact fetched_update hkn (by simp)
  | passOne _ _ hpc =>
    rw [hpc] at hkn
    refine ⟨h.setPc (fun hh => by cases hh) ?_, .of_eq rfl rfl⟩
    exact fetched_update hkn (by simp)
  | load _ _ _ hfree hp hu =>
    refine ⟨h.locked hfree ⟨h.free hfree, ⟨hp, by simp⟩, .inl rfl, hu, by simp⟩, .of_eq rfl rfl⟩
  | publish _ _ _ hfree hle => exact ⟨h.locked hfree ⟨h.free hfree, hle⟩, .of_eq rfl rfl⟩
  | publishAdded _ _ _ _ _ _ hfree hchain =>
    obtain ⟨had, -, he, hheld⟩ := hchain
    refine ⟨h.locked hfree ⟨h.free hfree, had, ?_⟩, .of_eq rfl rfl⟩
    obtain ⟨-, hnone, haf⟩ | ⟨-, -, -, q, hq, rfl, -⟩ := hheld
    · exact .inl ⟨isNone_iff_eq_none.1 hnone, haf⟩
    · exact .inr ⟨q, hq, rfl, (he q hq).le⟩
  | land _ _ _ _ _ hpc hp he =>
    rw [hpc] at hkn hlock
    exact ⟨h.setPc (fun _ => hlock rfl) ⟨hkn.1, hkn.2.1, hkn.2.2, hp, he⟩, .of_eq rfl rfl⟩
  | drop scopes _ hfree =>
    have hna : ∀ k, ∀ p ∈ (if k ∈ scopes then none else s.applied k), x.Names k p := by
      intro k
      split_ifs
      · simp
      · exact h.named k
    refine ⟨h.move _ (.inl hfree) rfl rfl h.exact hna (fun hh => by cases hh) (fun _ => rfl)
      fun k => ?_, .of_eq rfl rfl⟩
    refine ⟨fun hk => ?_, fun hk => if_pos hk⟩
    simp only [Synced, if_neg hk]
    exact h.free hfree k
  | swap job hpc =>
    rw [hpc] at hkn hlock
    refine ⟨h.move _ (.inr (hlock rfl)) rfl rfl (exact_swap hkn h.exact) h.named
      (fun hh => ?_) (fun _ => hlock rfl) ?_, fun k => ?_⟩
    · cases (hlock rfl).symm.trans hh
    · have hdo : (s.swap x job).Knows x (.committed job) := hkn.swap
      exact hdo.congr rfl rfl
    obtain hd | ⟨hd, hheld⟩ := held_swap hkn h.exact k
    · have hd : ((s.swap x job).setPc c (.committed job)).dropped k = s.dropped k + 1 :=
      hd
      exact ⟨by omega, fun hsa => by omega⟩
    · exact ⟨hd.ge, fun _ => hheld⟩
  | refuse _ hpc =>
    have hjo : (s.calls c).mayRefuse := ho
    rw [hpc] at hkn hlock hjo
    obtain ⟨hy, hp', hk'⟩ := hkn.refused hjo
    exact ⟨h.unlocked (hlock rfl) hy hp' hk', .of_eq rfl rfl⟩
  | resume job hpc => refine ⟨h.resumed hpc, .of_eq ?_ ?_⟩ <;> cases job <;> rfl
  | written _ _ hpc hp =>
    rw [hpc] at hkn hlock
    have hy := synced_apply hkn.1 hkn.2
    exact ⟨h.move _ (.inr (hlock rfl)) rfl rfl h.exact (named_apply h.named hp) (fun _ => hy)
      (fun _ => hlock rfl) hy, .of_eq rfl rfl⟩
  | unlock hpc =>
    rw [hpc] at hkn hlock
    exact ⟨h.unlocked (hlock rfl) hkn rfl trivial, .of_eq rfl rfl⟩
  | fails => exact ⟨h.setPc (fun hh => by cases hh) trivial, .of_eq rfl rfl⟩
  | failsLocked hpc =>
    have hm : (s.calls c).mayFail := ho
    obtain ⟨k, epoch, after, added, hpc⟩ | ⟨job, hpc⟩ | ⟨k, epoch, hpc⟩ | hpc := hpc
    · rw [hpc] at hkn hlock
      exact ⟨h.unlocked (hlock rfl) hkn.1 rfl trivial, .of_eq rfl rfl⟩
    · rw [hpc] at hm
      cases hm
    · rw [hpc] at hm
      cases hm
    rw [hpc] at hkn hlock
    exact ⟨h.unlocked (hlock rfl) hkn rfl trivial, .of_eq rfl rfl⟩
  | cancels _ hpc =>
    have hm : (s.calls c).mayFail := ho
    rw [hpc] at hm
    cases hm
  | late _ horphan => cases (h.orphans c).symm.trans horphan

/-- In every state the L1 has exactly the rows of its epochs, and the epoch of a scope goes back
only when the scope is dropped. -/
theorem versioned_reads {acts acts' : List (κ × L1Act K T O)}
    (hrun : ((system x).guard Undisturbed).run VersionedL1.start acts = some s)
    (hrun' : ((system x).guard Undisturbed).run s acts' = some s') :
    (∀ k t, s.l1.rows k t = x.heldAt k (s.l1.held k) t) ∧
      ∀ k, s'.dropped k = s.dropped k → ∀ e ∈ s.l1.held k, ∃ e' ∈ s'.l1.held k, e ≤ e' := by
  have hi : s.Inv x := by
    refine run_guard_invariant _ (I := fun s => s.Inv x) (fun s a s' h hk ht => ?_)
      .start hrun
    exact (h.step hk (moves_of_step ht)).1
  have ho : s'.Inv x ∧ s.Onward s' := by
    refine run_guard_invariant _ (I := fun s' => s'.Inv x ∧ s.Onward s')
      (fun s₁ a s₂ h hk ht => ?_) ⟨hi, .of_eq rfl rfl⟩ hrun'
    obtain ⟨hi, ho⟩ := h.1.step hk (moves_of_step ht)
    exact ⟨hi, h.2.trans ho⟩
  exact ⟨hi.exact, fun k => (ho.2 k).2⟩

/-- A scope of two tables: the second grows by rows 1 and 3, and the first is row 10 at epoch 1 and
row 20 later. Chunks are of one row. -/
def grownAndWhole : SnapshotRows Unit Bool Nat Nat where
  rows _ epoch t :=
    if t then (Finset.range (epoch + 1)).filter fun r => r = 1 ∨ r = 3
    else if epoch = 0 then ∅ else if epoch = 1 then {10} else {20}
  content n := {n}
  appendOnly t := t
  zero _ t := by cases t <;> rfl
  grows _ t e e' ht hle := by
    subst ht
    exact Finset.filter_subset_filter _ (Finset.range_mono (Nat.succ_le_succ hle))

def grownAt (epoch whole : Nat) (pieces : List (Piece Nat)) : Pointer Bool Nat :=
  ⟨epoch, fun t => if t then ⟨1, 1, pieces⟩ else ⟨whole, 1, []⟩⟩

def loadsFirst : List (Fin 3 × L1Act Unit Bool Nat) :=
  [(0, .load () (grownAt 1 10 [])), (0, .swap), (0, .resume)]

def addsThenFetches : List (Fin 3 × L1Act Unit Bool Nat) :=
  [(1, .publishAdded () 2 1 (fun t => t) (some (grownAt 1 10 []))), (1, .land (grownAt 2 20 [])),
    (1, .swap), (1, .resume), (2, .fetch () (grownAt 3 20 [⟨3, 1, 3, 0⟩])), (2, .commitBatch),
    (2, .swap), (2, .resume)]

theorem versioned_reads_added :
    ∃ s s', ((system grownAndWhole).guard Undisturbed).run VersionedL1.start loadsFirst = some s ∧
      ((system grownAndWhole).guard Undisturbed).run s addsThenFetches = some s' ∧
      (s.l1.held () = some 1 ∧ s'.l1.held () = some 3 ∧ s'.l1.rows () true = {1, 3}) ∧
      (∀ k t, s.l1.rows k t = grownAndWhole.heldAt k (s.l1.held k) t) ∧
      ∀ k, s'.dropped k = s.dropped k → ∀ e ∈ s.l1.held k, ∃ e' ∈ s'.l1.held k, e ≤ e' := by
  obtain ⟨s, hr, hs⟩ : ∃ s, ((system grownAndWhole).guard Undisturbed).run start
      loadsFirst = some s ∧ s.l1.held () = some 1 ∧
        ((((system grownAndWhole).guard Undisturbed).run s addsThenFetches).any fun s' =>
          s'.l1.held () = some 3 ∧ s'.l1.rows () true = {1, 3}) = true :=
    exists_run_of_any _ (by decide)
  obtain ⟨s', hr', hs'⟩ := exists_run_of_any _ hs.2
  exact ⟨s, s', hr, hr', ⟨hs.1, hs'⟩, versioned_reads hr hr'⟩

/-- A whole publish of epoch 3 fails once the L1 has its rows, and the replica takes a pointer of
epoch 2 as if it still held epoch 1. -/
theorem stale_afterFailedPublish :
    ∃ s s', (system grownAndWhole).run VersionedL1.start (loadsFirst ++
        [(1, .publish () 3), (1, .swap), (1, .resume), (1, .fail)]) = some s ∧
      (system grownAndWhole).run s
        [(2, .fetch () (grownAt 2 20 [])), (2, .commitBatch), (2, .swap), (2, .resume)] = some s' ∧
      s'.dropped () = s.dropped () ∧ s.l1.held () = some 3 ∧ s'.l1.held () = some 2 ∧
      s'.l1.rows () true ≠ grownAndWhole.heldAt () (s'.l1.held ()) true := by
  obtain ⟨s, hr, hs⟩ : ∃ s, (system grownAndWhole).run start (loadsFirst ++
        [(1, .publish () 3), (1, .swap), (1, .resume), (1, .fail)]) = some s ∧
      ((system grownAndWhole).run s
        [(2, .fetch () (grownAt 2 20 [])), (2, .commitBatch), (2, .swap), (2, .resume)]).any fun
          s' =>
          s'.dropped () = s.dropped () ∧ s.l1.held () = some 3 ∧ s'.l1.held () = some 2 ∧
            s'.l1.rows () true ≠ grownAndWhole.heldAt () (s'.l1.held ()) true :=
    exists_run_of_any _ (by decide)
  obtain ⟨s', hr', hs'⟩ := exists_run_of_any _ hs
  exact ⟨s, s', hr, hr', hs'⟩

end VersionedL1

end ThreeTears
