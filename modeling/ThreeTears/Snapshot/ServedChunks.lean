import ThreeTears.Snapshot.BackedCalls

/-!
# No sweep deletes a chunk that a pointer serves

Every chunk that is live is in the object store, and every sweep spares it. A step makes a chunk
live only by putting it, so it remains that a sweep under way does not have the chunk condemned, and
that a stage it still has to read is there.
-/

namespace ThreeTears

open Function List

variable {K T D ι ρ κ ς : Type*}

def PublishPc.gone : PublishPc K T → Bool
  | .ended | .dead none => true
  | _ => false

namespace SnapshotRun

variable [LinearOrder K]

section Sound

variable [DecidableEq T] [Fintype T] {x : SnapshotSetup K T} {s : SnapshotRun K T D ι ρ κ ς}

lemma exists_sound_next {bound : Nat} {a : PublishAct T} {call : PublishCall K T ρ}
    {pc : PublishPc K T} {eff : PublishEffect K T}
    (hsn : call.pc.Sound bound (s.pointers call.scope))
    (hnext : (s.view call).next x call.pc a = some (pc, eff)) :
    ∃ bound, pc.Sound bound (eff.pointer (s.pointers call.scope)) ∧
      eff.Forward bound (s.pointers call.scope) := by
  -- a bound past every epoch that the step may read
  refine ⟨bound + (s.view call).committed + (((s.pointers call.scope).value.map
    Pointer.epoch).getD 0 +
    call.pc.stagedEpoch.getD 0), ScopeView.sound_next ?_ (hsn.mono ?_ (.refl _)) ?_ ?_ hnext⟩
  · omega
  · omega
  · intro p hp
    have hva : (s.pointers call.scope).value = some p := hp
    rw [hva, Option.map_some, Option.getD_some]
    omega
  rintro - - - epoch he
  rw [he, Option.getD_some]
  omega

end Sound

variable [DecidableEq κ]

def ground (s : SnapshotRun K T D ι ρ κ ς) (c : κ) (k : K) : Ground K T where
  scope := k
  pointer := s.pointers k
  records := s.records k
  written := s.written c
  claims := (s.claims.filter (·.1 = c)).map Prod.snd

structure Safe (x : SnapshotSetup K T) (s : SnapshotRun K T D ι ρ κ ς) : Prop where
  sound : ∀ c, ∀ call ∈ s.calls c, ∃ bound, call.pc.Sound bound (s.pointers call.scope)
  backed : ∀ c, ∀ call ∈ s.calls c, call.pc.Backed x (s.ground c call.scope)
  pointers : ∀ k, ∀ p ∈ (s.pointers k).value, ∀ n ∈ x.names p, n.scope = k
  records : ∀ k epoch, ∀ r ∈ recordAt (s.records k) epoch, ∀ n ∈ x.stageNames r.tables, n.scope = k
  stored : ∀ n, s.Live x n → n ∈ s.store
  spares : ∀ d, (s.sweeps d).Spares x s

variable {x : SnapshotSetup K T} {s s' : SnapshotRun K T D ι ρ κ ς}

lemma Safe.scoped (h : s.Safe x) (c : κ) (k : K) : (s.ground c k).Scoped x :=
  ⟨h.pointers k, h.records k⟩

variable {n : ChunkName K T}

lemma owns_of_ground {c : κ} {k : K} (h : (s.ground c k).Owns n) : s.Owns c n := by
  obtain ⟨-, hw, hl⟩ := h
  obtain ⟨claim, hca, he⟩ := List.mem_map.1 hl
  obtain ⟨hmem, hc⟩ := mem_filter.1 hca
  obtain rfl : claim.1 = c := of_decide_eq_true hc
  exact ⟨hw, he ▸ hmem⟩

lemma live_of_backs {c : κ} {k : K} {kept : Bool}
    (h : (s.ground c k).Backs x kept n) : s.Live x n := by
  obtain ⟨rfl, he | ho | ⟨-, hk⟩⟩ := h
  · exact .inl (.inl he)
  · exact .inr ⟨c, owns_of_ground ho⟩
  · exact .inl (.inr hk)

lemma Safe.of_live (h : s.Safe x) (put : ChunkName K T → Prop)
    (ho : ∀ c n, s'.Owns c n → s.Owns c n ∨ put n) (hsp : ∀ n, s'.Spoken x n → s.Live x n)
    (hu : ∀ n, put n → n ∈ s'.store ∧ ∀ d, ¬ (s.sweeps d).Threatens n)
    (ht : ∀ n ∈ s.store, n ∈ s'.store) (he : ∀ k epoch, ∀ r ∈ recordAt (s.records k) epoch,
      r ∈ recordAt (s'.records k) epoch ∨ ∀ d, ¬ (s.sweeps d).Awaits k epoch) :
    (∀ n, s'.Live x n → n ∈ s'.store) ∧ ∀ d, (s.sweeps d).Spares x s' := by
  refine ⟨fun n hn => ?_, fun d => (h.spares d).mono (fun c n hc => ?_) hsp
    fun k epoch r hr => ?_⟩
  · obtain hn | ⟨c, hc⟩ := hn
    · exact ht n (h.stored n (hsp n hn))
    obtain hc | hn := ho c n hc
    · exact ht n (h.stored n (.inr ⟨c, hc⟩))
    · exact (hu n hn).1
  · exact (ho c n hc).imp (fun hc => ⟨c, hc⟩) fun hn => (hu n hn).2 d
  · exact (he k epoch r hr).imp_right fun hw => hw d

/-- No sweep has a chunk condemned that is put, and no stage is dropped that a sweep is about to
read or that another call has read and the pointer has not reached. -/
def OrderlyEffect (s : SnapshotRun K T D ι ρ κ ς) (c : κ) (k : K) : PublishEffect K T → Prop
  | .put n => ∀ d, ¬ (s.sweeps d).Threatens n
  | .drop epoch => (∀ d, ¬ (s.sweeps d).Awaits k epoch) ∧
    ((recordAt (s.records k) epoch).isSome → Ahead (s.pointers k).value epoch → ∀ c', c' ≠ c →
      ∀ call ∈ s.calls c', call.scope = k → call.pc.usesKept = false)
  | _ => True

section Effects

variable [DecidableEq T] {c : κ} {k : K} {eff : PublishEffect K T}

lemma ground_effect (c : κ) (k : K) (eff : PublishEffect K T) :
    (s.effect c k eff).ground c k = (s.ground c k).effect eff := by
  cases eff with
  | quiet => rfl
  | claim epoch | put name | move kv | keep record | drop epoch =>
    simp [effect, ground, Ground.effect]
  | release => simp [effect, ground, Ground.effect, List.filter_filter]

lemma owns_of_effect {c' : κ} (h : (s.effect c k eff).Owns c' n) : s.Owns c' n ∨ eff = .put n := by
  cases eff with
  | quiet | move | keep | drop => exact .inl h
  | claim =>
    obtain ⟨hw, hl⟩ := h
    obtain rfl | hc := eq_or_ne c' c
    · simp [effect] at hw
    simp only [effect, update_of_ne hc, mem_cons, Prod.mk.injEq] at hw hl
    exact .inl ⟨hw, hl.resolve_left fun he => hc he.1⟩
  | release => exact .inl ⟨h.1, (mem_filter.1 h.2).1⟩
  | put =>
    obtain ⟨hw, hl⟩ := h
    obtain rfl | hc := eq_or_ne c' c
    · simp only [effect, update_self, mem_cons] at hw
      obtain rfl | hw := hw
      · exact .inr rfl
      · exact .inl ⟨hw, hl⟩
    simp only [effect, update_of_ne hc] at hw
    exact .inl ⟨hw, hl⟩

lemma mem_recordAt_effect {k' : K} {epoch : Nat} {r : ScopeRecord K T}
    (h : r ∈ recordAt (s.records k') epoch) :
    r ∈ recordAt ((s.effect c k eff).records k') epoch ∨ k' = k ∧ eff = .drop epoch := by
  cases eff with
  | quiet | claim | release | put | move => exact .inl h
  | keep =>
    left
    obtain rfl | hk := eq_or_ne k' k
    · simp only [effect, update_self]
      exact mem_recordAt_kept h
    · simpa only [effect, update_of_ne hk] using h
  | drop epoch' =>
    obtain rfl | hk := eq_or_ne k' k
    · by_cases he : epoch = epoch'
      · exact .inr ⟨rfl, he ▸ rfl⟩
      left
      simp only [effect, update_self]
      rwa [recordAt_drop he]
    left
    simpa only [effect, update_of_ne hk] using h

lemma mem_recordAt_of_effect {k' : K} {epoch : Nat} {r : ScopeRecord K T}
    (h : r ∈ recordAt ((s.effect c k eff).records k') epoch) :
    r ∈ recordAt (s.records k') epoch ∨ k' = k ∧ eff = .keep r := by
  cases eff with
  | quiet | claim | release | put | move => exact .inl h
  | keep =>
    obtain rfl | hk := eq_or_ne k' k
    · simp only [effect, update_self] at h
      obtain h | rfl := mem_recordAt_of_kept h
      · exact .inl h
      · exact .inr ⟨rfl, rfl⟩
    · exact .inl (by simpa only [effect, update_of_ne hk] using h)
  | drop =>
    obtain rfl | hk := eq_or_ne k' k
    · simp only [effect, update_self] at h
      exact .inl (mem_recordAt_of_drop h)
    · exact .inl (by simpa only [effect, update_of_ne hk] using h)

lemma ahead_of_effect {bound epoch : Nat} (ho : eff.Forward bound (s.pointers k)) {k' : K}
    (h : Ahead ((s.effect c k eff).pointers k').value epoch) :
    Ahead (s.pointers k').value epoch := by
  intro p hp
  rw [effect_pointers] at h
  obtain rfl | hk := eq_or_ne k' k
  · rw [update_self] at h
    obtain ⟨p', hp', hle⟩ := ho.exists_le p hp
    exact hle.trans_lt (h p' hp')
  rw [update_of_ne hk] at h
  exact h p hp

lemma live_of_spoken_effect {bound : Nat}
    (ho : eff.Forward bound (s.pointers k)) (hsp : eff.Spoken x (s.ground c k))
    (h : (s.effect c k eff).Spoken x n) : s.Live x n := by
  obtain ⟨p, hp, hn⟩ | ⟨epoch, r, hr, hh, hn⟩ := h
  · rw [effect_pointers] at hp
    obtain rfl | hk := eq_or_ne n.scope k
    · rw [update_self] at hp
      cases eff with
      | move =>
        obtain ⟨q, rfl, hb⟩ := hsp
        cases hp
        exact live_of_backs (hb n hn)
      | _ => exact .inl (.inl ⟨p, hp, hn⟩)
    rw [update_of_ne hk] at hp
    exact .inl (.inl ⟨p, hp, hn⟩)
  obtain hr | ⟨-, rfl⟩ := mem_recordAt_of_effect hr
  · exact .inl (.inr ⟨epoch, r, hr, ahead_of_effect ho hh, hn⟩)
  · exact .inr ⟨c, owns_of_ground (hsp n hn)⟩

lemma grows_effect {bound : Nat} {c' : κ} {k' : K} {kept : Bool} (hc : c' ≠ c)
    (ho : eff.Forward bound (s.pointers k))
    (hd : ∀ epoch, eff = .drop epoch → k' = k → (recordAt (s.records k) epoch).isSome →
      Ahead (s.pointers k).value epoch → kept = false) :
    (s.ground c' k').Grows ((s.effect c k eff).ground c' k') kept where
  scope := rfl
  pointer := by
    simp only [ground, effect_pointers]
    exact forall_update (I := fun k kv => (s.pointers k).Stands kv) (fun k => .refl _)
      ho.stands k'
  forward _ hh := ahead_of_effect ho hh
  written n hn := by
    cases eff with
    | quiet | release | move | keep | drop => exact hn
    | claim | put => simpa [ground, effect, hc] using hn
  claims epoch hep := by
    obtain ⟨claim, hl, rfl⟩ := List.mem_map.1 hep
    obtain ⟨hmem, hc'⟩ := mem_filter.1 hl
    refine List.mem_map.2 ⟨claim, mem_filter.2 ⟨?_, hc'⟩, rfl⟩
    obtain rfl : claim.1 = c' := of_decide_eq_true hc'
    cases eff with
    | quiet | put | move | keep | drop => exact hmem
    | claim => exact mem_cons_of_mem _ hmem
    | release => exact mem_filter.2 ⟨hmem, by simpa using hc⟩
  records epoch r hr := by
    have he : r ∈ recordAt ((s.effect c k eff).records k') epoch ∨
        k' = k ∧ eff = .drop epoch := mem_recordAt_effect hr
    obtain hr' | ⟨rfl, rfl⟩ := he
    · exact .inl hr'
    by_cases hh : Ahead (s.pointers k').value epoch
    · exact .inr (.inr (hd epoch rfl rfl (Option.isSome_iff_exists.2 ⟨r, hr⟩) hh))
    · exact .inr (.inl hh)

end Effects

lemma Safe.lapse (h : s.Safe x) {c : κ} (hg : ∀ call ∈ s.calls c, call.pc.gone)
    (hs' : s' = { s with claims := s.claims.filter (·.1 ≠ c) }) : s'.Safe x := by
  have hlive : (∀ n, s'.Live x n → n ∈ s'.store) ∧ ∀ d, (s.sweeps d).Spares x s' := by
    subst hs'
    exact h.of_live (fun _ => False) (fun c' n hc => .inl ⟨hc.1, (mem_filter.1 hc.2).1⟩)
      (fun n hn => .inl hn) (fun _ hu => hu.elim) (fun n hn => hn) (fun k epoch r hr => .inl hr)
  subst hs'
  refine ⟨h.sound, fun c' call hcall => ?_, h.pointers, h.records, hlive.1, hlive.2⟩
  obtain rfl | hc := eq_or_ne c' c
  · have hg := hg call hcall
    cases hpc : call.pc with
    | ended => trivial
    | dead req =>
      cases req with
      | none => trivial
      | some =>
        rw [hpc] at hg
        cases hg
    | _ =>
      rw [hpc] at hg
      cases hg
  obtain ⟨bound, hsn⟩ := h.sound c' call hcall
  refine (h.backed c' call hcall).mono hsn ⟨rfl, .refl _, fun _ hh => hh,
    fun _ hn => hn, fun epoch he => ?_, fun _ _ hr => .inl hr⟩
  obtain ⟨claim, hl, rfl⟩ := List.mem_map.1 he
  obtain ⟨hmem, hc'⟩ := mem_filter.1 hl
  obtain rfl : claim.1 = c' := of_decide_eq_true hc'
  have hm' : claim ∈ s.claims.filter (·.1 ≠ c) := mem_filter.2 ⟨hmem, decide_eq_true hc⟩
  exact List.mem_map.2 ⟨claim, mem_filter.2 ⟨hm', hc'⟩, rfl⟩

variable [DecidableEq T] [Fintype T]

lemma Safe.call (h : s.Safe x) {c : κ} {a : PublishAct T} {call : PublishCall K T ρ}
    {pc : PublishPc K T} {eff : PublishEffect K T} (hcall : s.calls c = some call)
    (ho : s.OrderlyEffect c call.scope eff)
    (hnext : (s.view call).next x call.pc a = some (pc, eff)) :
    ((s.effect c call.scope eff).setPc c call pc).Safe x := by
  obtain ⟨bound, hsn⟩ := h.sound c call hcall
  have hb := h.backed c call hcall
  have hn' : ((s.ground c call.scope).view (epochOf s.db.table call.scope) s.store
      (s.applied call.replica call.scope)).next x call.pc a = some (pc, eff) := hnext
  have hsp := Ground.spoken_next hb hn'
  have hb' := Ground.backed_next hb hsn (h.scoped c call.scope) hn'
  obtain ⟨bound', hs', hfo⟩ := exists_sound_next hsn hnext
  have hlive : (∀ n, (s.effect c call.scope eff).Live x n → n ∈ (s.effect c call.scope eff).store) ∧
      ∀ d, (s.sweeps d).Spares x (s.effect c call.scope eff) := by
    refine h.of_live (fun n => eff = .put n) (fun c' n => owns_of_effect)
      (fun n => live_of_spoken_effect hfo hsp) ?_ ?_ fun k epoch r hr => ?_
    · rintro n rfl
      refine ⟨?_, ho⟩
      simp only [effect]
      split_ifs with hn
      · exact hn
      · exact mem_cons_self
    · intro n hn
      cases eff with
      | put =>
        simp only [effect]
        split_ifs
        · exact hn
        · exact mem_cons_of_mem _ hn
      | _ => exact hn
    apply (mem_recordAt_effect hr).imp_right
    rintro ⟨rfl, rfl⟩
    exact ho.1
  have ht : ∀ k, (s.pointers k).Stands (update s.pointers call.scope
      (eff.pointer (s.pointers call.scope)) k) :=
    forall_update (I := fun k kv => (s.pointers k).Stands kv) (fun k => .refl _) hfo.stands
  refine ⟨?_, ?_, ?_, ?_, hlive.1, ?_⟩
  · simp only [setPc, effect_pointers, effect_calls]
    refine forall_update (I := fun _ (call' : Option (PublishCall K T ρ)) => ∀ q ∈ call',
      ∃ bound, q.pc.Sound bound (update s.pointers call.scope
        (eff.pointer (s.pointers call.scope)) q.scope)) ?_ ?_
    · intro c' q hq
      obtain ⟨bound, hq⟩ := h.sound c' q hq
      exact ⟨bound, hq.mono le_rfl (ht q.scope)⟩
    rintro _ ⟨⟩
    rw [update_self]
    exact ⟨bound', hs'⟩
  · intro c' call' hc'
    obtain rfl | hc := eq_or_ne c' c
    · simp only [setPc, update_self, Option.mem_some_iff] at hc'
      subst hc'
      have hg := ground_effect (s := s) c' call.scope eff
      exact hg ▸ hb'
    simp only [setPc, update_of_ne hc, effect_calls] at hc'
    obtain ⟨bound, hsn⟩ := h.sound c' call' hc'
    refine (h.backed c' call' hc').mono hsn (grows_effect hc hfo ?_)
    rintro epoch rfl hk hsome hh
    exact ho.2 hsome hh c' hc call' hc' hk
  · simp only [setPc, effect_pointers]
    refine forall_update (I := fun k (kv : KvKey (ScopePointer K T)) => ∀ p ∈ kv.value,
      ∀ n ∈ x.names p, n.scope = k) h.pointers ?_
    cases eff with
    | move =>
      obtain ⟨p, rfl, hba⟩ := hsp
      rintro _ ⟨⟩ n hn
      exact (hba n hn).1
    | _ => exact h.pointers call.scope
  · intro k epoch r hr n hn
    obtain hr | ⟨rfl, rfl⟩ := mem_recordAt_of_effect hr
    · exact h.records k epoch r hr n hn
    · exact (hsp n hn).1
  intro d
  simp only [setPc, effect_sweeps]
  exact hlive.2 d

variable [DecidableEq ι] [DecidableEq ρ] [DecidableEq ς]

/-- Calls go on as `OrderlyEffect` says, and a claim lapses only once nothing of its call is under
way. -/
def Orderly (x : SnapshotSetup K T) (s : SnapshotRun K T D ι ρ κ ς) :
    SnapshotAct K T D ι ρ κ ς → Prop
  | .call c a => ∀ call ∈ s.calls c, ∀ next ∈ (s.view call).next x call.pc a,
    s.OrderlyEffect c call.scope next.2
  | .lapse c => ∀ call ∈ s.calls c, call.pc.gone
  | _ => True

theorem Safe.step {a : SnapshotAct K T D ι ρ κ ς} (h : s.Safe x) (ho : s.Orderly x a)
    (hmv : s.Moves x a s') : s'.Safe x := by
  cases hmv with
  | db a db hdb | apply r k p => exact { h with }
  | start c _ _ call =>
    refine { h with sound := ?_, backed := ?_ }
    · refine forall_update (I := fun _ (call : Option (PublishCall K T ρ)) => ∀ call' ∈ call,
        ∃ bound, call'.pc.Sound bound (s.pointers call'.scope)) h.sound ?_
      rintro _ ⟨⟩
      cases call with
      | publish epoch | publishAdded epoch after added => exact ⟨epoch, le_rfl⟩
      | _ => exact ⟨0, trivial⟩
    refine forall_update (I := fun c (call : Option (PublishCall K T ρ)) => ∀ call' ∈ call,
      call'.pc.Backed x (s.ground c call'.scope)) h.backed ?_
    rintro _ ⟨⟩
    cases call <;> trivial
  | call _ _ call _ _ hcall hnext => exact h.call hcall (ho call hcall _ hnext) hnext
  | lapse => exact h.lapse ho rfl
  | sweep d what hidle | swept d hsweep =>
    refine { h with spares := ?_ }
    exact forall_update (I := fun _ (pc : SweepPc K T) => pc.Spares x s) h.spares trivial
  | look d pc hlook =>
    refine { h with spares := ?_ }
    exact forall_update (I := fun _ (pc : SweepPc K T) => pc.Spares x s) h.spares
      ((h.spares d).look hlook)
  | delete d _ _ hsweep =>
    have hstale := h.spares d
    rw [hsweep] at hstale
    refine { h with stored := fun m hm => ?_, spares := ?_ }
    · refine mem_filter.2 ⟨h.stored m hm, decide_eq_true ?_⟩
      rintro rfl
      exact hstale m mem_cons_self hm
    exact forall_update (I := fun _ (pc : SweepPc K T) => pc.Spares x s) h.spares
      fun m hm => hstale m (mem_cons_of_mem _ hm)

omit [DecidableEq T] [Fintype T] [DecidableEq ι] [DecidableEq ρ] [DecidableEq ς] in
lemma Safe.start (data : D) : (start data : SnapshotRun K T D ι ρ κ ς).Safe x where
  sound := by rintro c call ⟨⟩
  backed := by rintro c call ⟨⟩
  pointers := by rintro k p ⟨⟩
  records := by rintro k epoch r ⟨⟩
  stored := by
    rintro n ((⟨p, ⟨⟩, -⟩ | ⟨epoch, r, ⟨⟩, -⟩) | ⟨c, hw, -⟩)
    exact absurd hw not_mem_nil
  spares _ := trivial

/-- In every orderly run every chunk that a scope's pointer names is in the object store, whatever
the calls and sweeps of any number of replicas do and wherever they die. -/
theorem served_chunks_stored [∀ (s : SnapshotRun K T D ι ρ κ ς) (a : SnapshotAct K T D ι ρ κ ς),
      Decidable (s.Orderly x a)] {data : D} {as : List (SnapshotAct K T D ι ρ κ ς)}
    (hrun : ((system x).guard (Orderly x)).run (start data) as = some s) :
    ∀ k, ∀ p ∈ (s.pointers k).value, ∀ n ∈ x.names p, n ∈ s.store := by
  have h : s.Safe x := by
    refine StepSystem.run_guard_invariant _ (I := Safe x) (fun s a s' h ho ht => ?_)
      (.start data) hrun
    exact h.step ho (moves_of_step ht)
  intro k p hp n hn
  obtain rfl := h.pointers k p hp n hn
  exact h.stored n (.inl (.inl ⟨p, hp, hn⟩))

section

variable [Fintype κ] [Fintype ς]

instance (s : SnapshotRun K T D ι ρ κ ς) (c k) (eff) : Decidable (s.OrderlyEffect c k eff) := by
  unfold OrderlyEffect
  split <;> infer_instance

instance (s : SnapshotRun K T D ι ρ κ ς) (a) : Decidable (s.Orderly x a) := by
  apply SnapshotAct.casesOn (motive := fun a => Decidable (s.Orderly x a)) a <;> intros <;>
    dsimp only [Orderly] <;> infer_instance

end

/-- A sweep reads the claims and the pointer. The kept stage is carried on and dropped, and then the
sweep reads the kept stages and deletes. -/
def carriedUnderSweep : List (SnapshotAct Nat Unit Unit Unit Unit (Fin 3) Unit) :=
  firstPublish ++ keptStage ++ [.sweep () .unreferenced, .look (), .look ()] ++ carriedOn ++
    [.call 2 .read, .call 2 .drop, .look (), .look (), .delete ()]

theorem unserved_carriedUnderSweep :
    ∃ s, (system oneTable).run (start ()) carriedUnderSweep = some s ∧
      ∃ p ∈ (s.pointers 7).value, ∃ n ∈ oneTable.names p, n ∉ s.store :=
  StepSystem.exists_run_of_any _ rfl

def carriedBesideSweep : List (SnapshotAct Nat Unit Unit Unit Unit (Fin 3) Unit) :=
  firstPublish ++ keptStage ++ [.sweep () .unreferenced, .look (), .look (), .look (), .look ()] ++
    carriedOn ++ [.call 2 .read, .call 2 .drop, .look (), .delete ()]

theorem served_carriedBesideSweep :
    ∃ s, ((system oneTable).guard (Orderly oneTable)).run (start ()) carriedBesideSweep = some s ∧
      ((s.pointers 7).value.map Pointer.epoch = some 2 ∧ s.records 7 = []) ∧
      ∀ p ∈ (s.pointers 7).value, ∀ n ∈ oneTable.names p, n ∈ s.store := by
  refine StepSystem.exists_run_imp _
    (p := fun s => (s.pointers 7).value.map Pointer.epoch = some 2 ∧ (s.records 7).length = 0) rfl
    fun s hr hs => ?_
  exact ⟨⟨hs.1, length_eq_zero_iff.1 hs.2⟩, served_chunks_stored hr 7⟩

end SnapshotRun

end ThreeTears
