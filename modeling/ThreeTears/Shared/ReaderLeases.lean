import ThreeTears.Lib.Custody
import ThreeTears.Lib.Families
import ThreeTears.Shared.VersionReader

/-!
# A reader lets every version go, and none under a read

Each lease the reader takes is kept for the next read, or used by the reads that are open, or one
call owes letting it go. The reader's counts, flags and calls say which, so that a lease is released
once, and not under a read.
-/

namespace ThreeTears

open Function Option ReaderPc Custody

variable {ν κ : Type*}

namespace ReaderPc

def owes : ReaderPc → Option ℕ
  | idle | leasing | reading _ => none
  | mapping i => some i
  | opening _ letGo => letGo
  | letting _ l => some l
  | closing i => some i

def Locked : ReaderPc → Prop
  | leasing | mapping _ | opening _ _ => True
  | idle | letting _ _ | reading _ | closing _ => False

variable {pc : ReaderPc}

lemma Rests.owes (h : pc.Rests) : pc.owes = none := by
  cases pc with
  | idle | reading => rfl
  | _ => exact h.elim

lemma Rests.eq_reading {i : ℕ} (h : pc.Rests) (hi : pc.version = some i) : pc = reading i := by
  cases pc with try cases hi
  | reading => rfl
  | _ => exact h.elim

lemma locked_of_eq_opening {i : ℕ} {l : Option ℕ} (h : pc = opening i l) : pc.Locked := h ▸ trivial

@[simp] lemma owes_letGoPc (o : Option ℕ) : (ReaderRun.letGoPc o).owes = o := by cases o <;> rfl

@[simp] lemma version_letGoPc (o : Option ℕ) : (ReaderRun.letGoPc o).version = none := by
  cases o <;> rfl

@[simp] lemma not_locked_letGoPc (o : Option ℕ) : ¬ (ReaderRun.letGoPc o).Locked := by
  cases o <;> exact id

end ReaderPc

/-- What the reader knows of a version that is in the given custody. -/
def HeldVersion.Suits (o : Option (HeldVersion ν)) : Custody κ → Prop
  | .fresh => o = none
  | .owed _ => ∃ x ∈ o, x.lease.descriptor = true ∧ x.lease.releases = 0
  | .kept us => ∃ x ∈ o, x.lease.descriptor = true ∧ x.lease.releases = 0 ∧
      x.reads = us.card ∧ x.superseded = false
  | .used us _ => ∃ x ∈ o, x.lease.descriptor = true ∧ x.lease.releases = 0 ∧
      x.reads = us.card ∧ x.superseded = true
  | .released => ∃ x ∈ o, x.lease.descriptor = false ∧ x.lease.releases = 1

namespace HeldVersion.Suits

variable {o : Option (HeldVersion ν)} {v : Custody κ} {us : Finset κ} {c : κ}

lemma close (h : Suits o (.owed c)) : Suits (o.map close) (.released : Custody κ) := by
  obtain ⟨x, rfl, -, hr⟩ := h
  exact ⟨x.close, rfl, rfl, congrArg (· + 1) hr⟩

lemma install (h : Suits o (.owed c)) :
    Suits ((o.map fun x => .ofLease x.lease).map openRead) (.kept {c}) := by
  obtain ⟨x, rfl, hd, hr⟩ := h
  exact ⟨(ofLease x.lease).openRead, rfl, hd, hr, rfl, rfl⟩

variable (h : Suits o v)
include h

lemma descriptor (hc : c ∈ v.users) : ∃ x ∈ o, x.lease.descriptor = true := by
  cases v with
  | fresh | owed | released => simp at hc
  | kept us | used us he =>
    obtain ⟨x, hx, hd, -⟩ := h
    exact ⟨x, hx, hd⟩

variable {x : HeldVersion ν}

lemma releases_le (hx : o = some x) : x.lease.releases ≤ 1 := by
  subst hx
  cases v with
  | fresh => cases h
  | kept | used =>
    obtain ⟨_, hx, -, hr, -⟩ := h
    cases hx
    omega
  | owed | released =>
    obtain ⟨_, hx, -, hr⟩ := h
    cases hx
    omega

lemma custody (hx : o = some x) (hd : x.lease.descriptor = true) :
    (∃ c, v = .owed c) ∨ (∃ us, v = .kept us) ∨ ∃ c, c ∈ v.users := by
  subst hx
  cases v with
  | fresh => cases h
  | owed c => exact .inl ⟨c, rfl⟩
  | kept us => exact .inr (.inl ⟨us, rfl⟩)
  | used _ he => exact .inr (.inr he)
  | released =>
    obtain ⟨_, hx, hc, -⟩ := h
    cases hx
    rw [hc] at hd
    cases hd

variable [DecidableEq κ]

omit h in
lemma openRead (h : Suits o (.kept us)) (hc : c ∉ us) :
    Suits (o.map openRead) (.kept (insert c us)) := by
  obtain ⟨x, rfl, hd, he, hr, hu⟩ := h
  refine ⟨x.openRead, rfl, hd, he, ?_, hu⟩
  rw [Finset.card_insert_of_notMem hc, ← hr]
  rfl

omit h in
lemma reads_endRead {x : HeldVersion ν} (h : x.reads = us.card) (hc : c ∈ us) :
    x.endRead.reads = (us.erase c).card := by
  rw [Finset.card_erase_of_mem hc, ← h]
  rfl

lemma endRead (hc : c ∈ v.users) : Suits (o.map endRead) (v.leave c) := by
  cases v with
  | fresh | owed | released => simp at hc
  | kept =>
    obtain ⟨x, rfl, hd, he, hr, hu⟩ := h
    exact ⟨x.endRead, rfl, hd, he, reads_endRead hr hc, hu⟩
  | used us =>
    obtain ⟨x, rfl, hd, he, hr, hu⟩ := h
    rw [leave]
    obtain hl | hm := (us.erase c).eq_empty_or_nonempty
    · rw [hl, ofUsers_empty]
      exact ⟨x.endRead, rfl, hd, he⟩
    rw [ofUsers_of_nonempty hm]
    exact ⟨x.endRead, rfl, hd, he, reads_endRead hr hc, hu⟩

lemma leave_eq_owed (hc : c ∈ v.users) :
    v.leave c = .owed c ↔ ∃ x ∈ o.map HeldVersion.endRead, x.superseded = true ∧ x.reads = 0 := by
  cases v with
  | fresh | owed | released => simp at hc
  | kept =>
    obtain ⟨x, rfl, -, -, -, hu⟩ := h
    simp [leave, HeldVersion.endRead, hu]
  | used us =>
    obtain ⟨x, rfl, -, -, hr, hu⟩ := h
    have hc : c ∈ us := hc
    have hl : us.erase c = ∅ ↔ x.reads - 1 = 0 := by
      rw [← Finset.card_eq_zero, Finset.card_erase_of_mem hc, hr]
    simp [leave, HeldVersion.endRead, hu, hl]

end HeldVersion.Suits

namespace ReaderRun

open HeldVersion (Suits)

structure Matches (s : ReaderRun ν κ) (k : ℕ → Custody κ) : Prop where
  version : ∀ i, Suits s.versions[i]? (k i)
  owes : ∀ c i, (s.calls c).owes = some i ↔ k i = .owed c
  read : ∀ c i, (s.calls c).version = some i ↔ c ∈ (k i).users
  held : ∀ i, s.held = some i ↔ ∃ us, k i = .kept us

/-- What the lock keeps: only the call that has it is between its steps there, the version whose
cursor is opened is the one held, and a closed reader holds none. -/
structure Guarded (s : ReaderRun ν κ) : Prop where
  locked : ∀ c, (s.calls c).Locked → s.lock = some c
  opening : ∀ c i l, s.calls c = .opening i l → s.held = some i
  closed : s.closed = true → s.held = none ∧ ∀ c, ¬ (s.calls c).Locked

structure Inv (s : ReaderRun ν κ) : Prop extends Guarded s where
  custody : ∃ k, Matches s k

lemma Inv.start : Inv (start : ReaderRun ν κ) where
  locked _ h := h.elim
  opening _ _ _ h := nomatch h
  closed h := nomatch h
  custody := ⟨fun _ => .fresh, fun _ => rfl, by simp [ReaderRun.start, owes],
    by simp [ReaderRun.start, version], by simp [ReaderRun.start]⟩

variable {s t : ReaderRun ν κ} {k k' : ℕ → Custody κ} {c : κ} {pc : ReaderPc} {i : ℕ}
  {w : Custody κ}

/-! ### The held version is given up -/

@[simp] lemma calls_supersede (s : ReaderRun ν κ) : s.supersede.1.calls = s.calls := by
  unfold supersede
  split <;> rfl

lemma calls_install [DecidableEq κ] (s : ReaderRun ν κ) (c : κ) (i : ℕ) :
    (s.install c i).calls = update s.calls c (.opening i s.supersede.2) :=
  congrArg (update · c _) (calls_supersede s)

@[simp] lemma lock_supersede (s : ReaderRun ν κ) : s.supersede.1.lock = s.lock := by
  unfold supersede
  split <;> rfl

@[simp] lemma closed_supersede (s : ReaderRun ν κ) : s.supersede.1.closed = s.closed := by
  unfold supersede
  split <;> rfl

@[simp] lemma held_supersede (s : ReaderRun ν κ) : s.supersede.1.held = none := by
  unfold supersede
  split
  · assumption
  · rfl

lemma unread_iff_of_kept {us : Finset κ} (h : Suits s.versions[i]? (.kept us)) :
    s.Unread i ↔ us = ∅ := by
  obtain ⟨x, hx, -, -, hr, -⟩ := h
  have hx : s.versions[i]? = some x := hx
  simp [Unread, hx, hr]

lemma Matches.supersede_eq_some (h : Matches s k) : s.supersede.2 = some i ↔ k i = .kept ∅ := by
  unfold supersede
  cases hheld : s.held with
  | none =>
    have hk := h.held i
    simp only [hheld, reduceCtorEq, false_iff, not_exists] at hk
    simpa using hk ∅
  | some j =>
    obtain ⟨us, hus⟩ := (h.held j).1 hheld
    have hu := unread_iff_of_kept (hus ▸ h.version j)
    have ho : ∀ ws, k i = .kept ws → j = i := by
      intro ws hw
      exact Option.some.inj (hheld.symm.trans ((h.held i).2 ⟨ws, hw⟩))
    dsimp only
    split_ifs with hread
    · rw [hu.1 hread] at hus
      constructor
      · rintro ⟨⟩
        exact hus
      intro hi
      rw [ho _ hi]
    simp only [false_iff]
    intro hi
    obtain rfl := ho _ hi
    rw [hus] at hi
    exact hread (hu.2 (kept.inj hi))

lemma Matches.suits_supersede (h : Matches s k) (i : ℕ) :
    Suits s.supersede.1.versions[i]? ((k i).giveUp c) := by
  unfold supersede
  cases hheld : s.held with
  | none =>
    have hk := h.held i
    simp only [hheld, reduceCtorEq, false_iff, not_exists] at hk
    rw [giveUp_of_not_kept hk]
    exact h.version i
  | some j =>
    have hi := h.version i
    obtain rfl | hj := eq_or_ne i j
    · obtain ⟨us, hu⟩ := (h.held i).1 hheld
      rw [hu] at hi ⊢
      obtain ⟨x, hx, hd, hr, he, -⟩ := hi
      have hx : s.versions[i]? = some x := hx
      obtain rfl | hne := us.eq_empty_or_nonempty
      · exact ⟨x.supersede, by simp [hx], hd, hr⟩
      rw [giveUp, ofUsers_of_nonempty hne]
      exact ⟨x.supersede, by simp [hx], hd, hr, he, rfl⟩
    dsimp only
    rw [List.getElem?_modify_ne _ _ hj.symm]
    have hk : ∀ us, k i ≠ .kept us := by
      intro us hu
      exact hj (Option.some.inj (((h.held i).2 ⟨us, hu⟩).symm.trans hheld))
    rw [giveUp_of_not_kept hk]
    exact hi

/-! ### What one call changes -/

lemma owes_leavePc {j : ℕ} : (t.leavePc i).owes = some j ↔
    j = i ∧ ∃ x ∈ t.versions[i]?, x.superseded = true ∧ x.reads = 0 := by
  unfold leavePc
  split_ifs with hl
  · simp only [hl, and_true, owes, Option.some.injEq]
    exact eq_comm
  · simp only [hl, and_false, owes, reduceCtorEq]

lemma version_leavePc : (t.leavePc i).version = none := by
  unfold leavePc
  split_ifs <;> rfl

lemma not_locked_leavePc : ¬ (t.leavePc i).Locked := by
  unfold leavePc
  split_ifs <;> exact id

lemma Guarded.alone (h : Guarded s) (hlock : s.lock = none ∨ s.lock = some c) {d : κ}
    (hd : d ≠ c) : ¬ (s.calls d).Locked := by
  intro hl
  have hld := h.locked d hl
  obtain hlock | hlock := hlock
  · rw [hlock] at hld
    cases hld
  rw [hlock] at hld
  exact hd (Option.some.inj hld).symm

variable [DecidableEq κ] (h : Matches s k)
include h

lemma Matches.move (hm : ∀ i, (k i).Moves c (k' i)) (hc : t.calls = update s.calls c pc)
    (ho : ∀ i, pc.owes = some i ↔ k' i = .owed c)
    (hread : ∀ i, pc.version = some i ↔ c ∈ (k' i).users) (he : ∀ i, Suits t.versions[i]? (k' i))
    (hheld : ∀ i, t.held = some i ↔ ∃ us, k' i = .kept us) : Matches t k' where
  version := he
  owes d i := by
    rw [hc]
    obtain rfl | hd := eq_or_ne d c
    · simpa using ho i
    · rw [update_of_ne hd, h.owes, ((hm i).other hd).1]
  read d i := by
    rw [hc]
    obtain rfl | hd := eq_or_ne d c
    · simpa using hread i
    · rw [update_of_ne hd, h.read, ((hm i).other hd).2]
  held := hheld

lemma Matches.stay (hc : t.calls = update s.calls c pc)
    (ho : pc.owes = (s.calls c).owes) (hread : pc.version = (s.calls c).version)
    (he : t.versions = s.versions) (hheld : t.held = s.held) : Matches t k :=
  h.move (fun i => .refl (k i)) hc (fun i => by rw [ho, h.owes])
    (fun i => by rw [hread, h.read]) (fun i => he ▸ h.version i)
    (fun i => by rw [hheld, h.held])

lemma Matches.moveOne {f : HeldVersion ν → HeldVersion ν}
    (hm : (k i).Moves c w) (hc : t.calls = update s.calls c pc)
    (hw : pc.owes = some i ↔ w = .owed c) (hread : pc.version = some i ↔ c ∈ w.users)
    (ho : ∀ j ≠ i, (pc.owes = some j ↔ (s.calls c).owes = some j) ∧
      (pc.version = some j ↔ (s.calls c).version = some j))
    (he : t.versions = s.versions.modify i f) (hu : Suits (s.versions[i]?.map f) w)
    (hheld : t.held = s.held) (hk : (∃ us, w = .kept us) ↔ ∃ us, k i = .kept us) :
    ∃ k', Matches t k' := by
  refine ⟨update k i w, h.move ?_ hc ?_ ?_ ?_ ?_⟩ <;> intro j <;>
    obtain rfl | hj := eq_or_ne j i
  · simpa using hm
  · simpa [hj] using .refl (k j)
  · simpa using hw
  · rw [update_of_ne hj, (ho j hj).1, h.owes]
  · simpa using hread
  · rw [update_of_ne hj, (ho j hj).2, h.read]
  · simpa [he] using hu
  · rw [update_of_ne hj, he, List.getElem?_modify_ne _ _ hj.symm]
    exact h.version j
  · rw [hheld, h.held, update_self, hk]
  · rw [hheld, h.held, update_of_ne hj]

omit h in
lemma Guarded.move (h : Guarded s) (hlock : s.lock = none ∨ s.lock = some c)
    (hcs : t.calls = update s.calls c pc)
    (hlo : pc.Locked → t.lock = some c) (ho : ∀ i l, pc = .opening i l → t.held = some i)
    (hc : t.closed = true → t.held = none ∧ ¬ pc.Locked) : Guarded t := by
  have hr : ∀ d, (t.calls d).Locked → d = c ∧ t.calls d = pc := by
    intro d hl
    obtain rfl | hd := eq_or_ne d c
    · exact ⟨rfl, by rw [hcs, update_self]⟩
    rw [hcs, update_of_ne hd] at hl
    exact absurd hl (h.alone hlock hd)
  refine ⟨fun d hl => ?_, fun d i l hd => ?_, fun ht => ⟨(hc ht).1, fun d hl => ?_⟩⟩
  · obtain ⟨rfl, hpc⟩ := hr d hl
    exact hlo (hpc ▸ hl)
  · exact ho i l ((hr d (by rw [hd]; trivial)).2.symm.trans hd)
  · exact (hc ht).2 ((hr d hl).2 ▸ hl)

omit h in
lemma Guarded.free (h : Guarded s) (hcs : t.calls = update s.calls c pc)
    (hpc : ¬ pc.Locked) (hlock : t.lock = s.lock) (hheld : t.held = s.held)
    (hc : t.closed = s.closed) : Guarded t where
  locked d hd := by
    rw [hcs] at hd
    rw [hlock]
    exact forall_update (I := fun d (p : ReaderPc) => p.Locked → s.lock = some d) h.locked
      (fun hl => absurd hl hpc) d hd
  opening d i l hd := by
    rw [hcs] at hd
    rw [hheld]
    exact forall_update (I := fun _ (p : ReaderPc) => p = .opening i l → s.held = some i)
      (fun d => h.opening d i l) (fun hl => absurd (hl ▸ trivial) hpc) d hd
  closed ht := by
    rw [hcs, hheld]
    exact ⟨(h.closed (hc ▸ ht)).1, forall_update (I := fun _ (p : ReaderPc) => ¬ p.Locked)
      (h.closed (hc ▸ ht)).2 hpc⟩

lemma Matches.release (hi : (s.calls c).owes = some i) (ho : pc.owes = none)
    (hread : pc.version = (s.calls c).version) (hc : t.calls = update s.calls c pc)
    (he : t.versions = s.versions.modify i HeldVersion.close) (hheld : t.held = s.held) :
    ∃ k', Matches t k' := by
  have hk := (h.owes c i).1 hi
  have hu : Suits s.versions[i]? (.owed c) := hk ▸ h.version i
  refine h.moveOne (hk ▸ .release) hc ?_ ?_ ?_ he hu.close hheld ?_
  · simp [ho]
  · rw [hread, h.read, hk]
    simp
  · intro j hj
    rw [ho, hread, hi]
    simp [hj.symm]
  · simp [hk]

lemma Matches.enter (hidle : s.calls c = .idle) (hheld : s.held = some i) :
    ∃ k', Matches (s.enter c i none) k' := by
  obtain ⟨us, hk⟩ := (h.held i).1 hheld
  have hu : Suits s.versions[i]? (.kept us) := hk ▸ h.version i
  have hc : c ∉ us := by
    have hread := h.read c i
    rw [hidle, hk] at hread
    exact fun hc => nomatch hread.2 hc
  refine h.moveOne (hk ▸ .use us) rfl ?_ ?_ ?_ rfl (hu.openRead hc) rfl ?_
  · simp [ReaderPc.owes]
  · simp [ReaderPc.version]
  · intro j hj
    simp [hidle, ReaderPc.owes, ReaderPc.version, hj.symm]
  · simp [hk]

lemma Matches.leave (hread : (s.calls c).version = some i) (hw : (s.calls c).owes = none)
    (hc : t.calls = update s.calls c pc)
    (hr : t.versions = s.versions.modify i HeldVersion.endRead) (hheld : t.held = s.held)
    (he : pc.version = none)
    (ho : ∀ j, pc.owes = some j ↔ j = i ∧ (k i).leave c = .owed c) : ∃ k', Matches t k' := by
  refine h.moveOne (.leave (k i)) hc ?_ ?_ ?_ hr
    ((h.version i).endRead ((h.read c i).1 hread)) hheld exists_leave_eq_kept
  · simpa using ho i
  · simp [he]
  intro j hj
  rw [ho, he, hread, hw]
  simp [hj, hj.symm]

lemma Matches.letHeldGo (hidle : s.calls c = .idle) :
    Matches (s.letHeldGo c) fun i => (k i).giveUp c := by
  refine h.move (fun i => .giveUp (k i)) rfl ?_ ?_ h.suits_supersede ?_
  · intro i
    have ho : k i ≠ .owed c := by
      rw [Ne, ← h.owes, hidle]
      exact nofun
    simp [giveUp_eq_owed, h.supersede_eq_some, ho]
  · intro i
    rw [users_giveUp, ← h.read, hidle, version_letGoPc]
    rfl
  · simp [ReaderRun.letHeldGo]

lemma Matches.install (hi : s.calls c = .mapping i) :
    Matches (s.install c i) (update (fun j => (k j).giveUp c) i (.kept {c})) := by
  have hk : k i = .owed c := (h.owes c i).1 (by rw [hi]; rfl)
  refine h.move ?_ (calls_install s c i) ?_ ?_ ?_ ?_
  · intro j
    obtain rfl | hj := eq_or_ne j i
    · rw [hk, update_self]
      exact .keep
    rw [update_of_ne hj]
    exact .giveUp (k j)
  · intro j
    obtain rfl | hj := eq_or_ne j i
    · simp [ReaderPc.owes, h.supersede_eq_some, hk]
    have ho : k j ≠ .owed c := by
      rw [Ne, ← h.owes, hi]
      simpa [ReaderPc.owes] using hj.symm
    simp [ReaderPc.owes, h.supersede_eq_some, giveUp_eq_owed, ho, hj]
  · intro j
    obtain rfl | hj := eq_or_ne j i
    · simp [ReaderPc.version]
    have ho : c ∉ (k j).users := by
      rw [← h.read, hi]
      exact nofun
    simp [ReaderPc.version, ho, hj, hj.symm]
  · intro j
    have hj' := h.suits_supersede (c := c) j
    obtain rfl | hj := eq_or_ne j i
    · rw [hk] at hj'
      simpa [ReaderRun.install, ReaderRun.enter] using hj'.install
    · simpa [ReaderRun.install, ReaderRun.enter, hj, List.getElem?_modify_ne _ _ hj.symm] using hj'
  intro j
  obtain rfl | hj := eq_or_ne j i
  · simp [ReaderRun.install, ReaderRun.enter]
  · simp [ReaderRun.install, ReaderRun.enter, hj, hj.symm]

lemma Matches.lease {v : ν} (hi : s.calls c = .leasing)
    (hc : t.calls = update s.calls c (.mapping s.versions.length))
    (he : t.versions = s.versions ++ [.ofLease (.take v)]) (hheld : t.held = s.held) :
    Matches t (update k s.versions.length (.owed c)) := by
  have hr : k s.versions.length = .fresh := by
    have hu := h.version s.versions.length
    cases hk : k s.versions.length with
    | fresh => rfl
    | _ =>
      rw [hk] at hu
      obtain ⟨x, hx, -⟩ := hu
      simp at hx
  have hnone : ∀ j, k j ≠ .owed c ∧ c ∉ (k j).users := by
    intro j
    rw [Ne, ← h.owes, ← h.read, hi]
    exact ⟨nofun, nofun⟩
  refine h.move ?_ hc ?_ ?_ ?_ ?_ <;> intro j <;>
    obtain rfl | hj := eq_or_ne j s.versions.length
  · rw [hr, update_self]
    exact .take
  · rw [update_of_ne hj]
    exact .refl (k j)
  · simp [ReaderPc.owes]
  · simp [ReaderPc.owes, hj, hj.symm, (hnone j).1]
  · simp [ReaderPc.version]
  · simp [ReaderPc.version, hj, (hnone j).2]
  · rw [update_self, he]
    exact ⟨.ofLease (.take v), by simp, rfl, rfl⟩
  · have hj' := h.version j
    have hsa : (s.versions ++ [.ofLease (.take v)])[j]? = s.versions[j]? := by
      rw [List.getElem?_append]
      split_ifs with hlt
      · rfl
      · rw [List.getElem?_eq_none (by simp; omega), List.getElem?_eq_none (by omega)]
    rwa [update_of_ne hj, he, hsa]
  · rw [hheld, h.held, hr]
    simp
  · rw [hheld, h.held, update_of_ne hj]

omit h

lemma Inv.unlock (h : Inv s) (ho : (s.calls c).Locked) (hpc : ¬ pc.Locked)
    (hcs : t.calls = update s.calls c pc) (hheld : t.held = s.held)
    (hcl : t.closed = s.closed) (hc : ∃ k, Matches t k) : Inv t where
  toGuarded := h.toGuarded.move (.inr (h.locked c ho)) hcs (fun hl => absurd hl hpc)
    (fun _ _ hi => absurd (locked_of_eq_opening hi) hpc)
    (fun ht => ⟨hheld.trans (h.closed (hcl.symm.trans ht)).1, hpc⟩)
  custody := hc

lemma Inv.leave (h : Inv s) (hi : s.calls c = .reading i)
    (ht : t = { s with versions := s.versions.modify i HeldVersion.endRead }) :
    Inv { t with calls := update s.calls c (t.leavePc i) } := by
  obtain ⟨k, hk⟩ := h.custody
  have hc : c ∈ (k i).users := (hk.read c i).1 (by rw [hi]; rfl)
  have he : t.versions[i]? = s.versions[i]?.map HeldVersion.endRead := by
    rw [ht]
    simp
  refine ⟨h.toGuarded.free rfl not_locked_leavePc ?_ ?_ ?_,
    hk.leave (by rw [hi]; rfl) (by rw [hi]; rfl) rfl ?_ ?_ version_leavePc fun j => ?_⟩
  case refine_6 => rw [owes_leavePc, he, (hk.version i).leave_eq_owed hc]
  all_goals exact ht ▸ rfl

lemma Inv.release (h : Inv s) (hi : (s.calls c).owes = some i) (ho : pc.owes = none)
    (hread : pc.version = (s.calls c).version) (hpc : ¬ pc.Locked) : Inv { s with
      versions := s.versions.modify i HeldVersion.close
      calls := update s.calls c pc } := by
  obtain ⟨k, hk⟩ := h.custody
  exact ⟨h.toGuarded.free rfl hpc rfl rfl rfl, hk.release hi ho hread rfl rfl rfl⟩

lemma Inv.letHeldGo (h : Inv s) (closed : Bool) (hlock : s.lock = none)
    (hidle : s.calls c = .idle) : Inv ({ s with closed := closed }.letHeldGo c) := by
  obtain ⟨k, hk⟩ := h.custody
  have hk' : Matches { s with closed := closed } k := { hk with }
  refine ⟨h.toGuarded.move (.inl hlock) rfl ?_ ?_ ?_, _, hk'.letHeldGo hidle⟩
  · exact fun hl => absurd hl (not_locked_letGoPc _)
  · exact fun i l hi => absurd (locked_of_eq_opening hi) (not_locked_letGoPc _)
  · exact fun _ => ⟨held_supersede _, not_locked_letGoPc _⟩

lemma Inv.install (h : Inv s) (hi : s.calls c = .mapping i) : Inv (s.install c i) := by
  obtain ⟨k, hk⟩ := h.custody
  have hl : (s.calls c).Locked := hi ▸ trivial
  refine ⟨h.toGuarded.move (.inr (h.locked c hl)) (calls_install s c i) (fun _ => rfl) ?_ ?_,
    _, hk.install hi⟩
  · rintro _ _ ⟨⟩
    rfl
  intro ht
  exact absurd hl ((h.closed ((closed_supersede s).symm.trans ht)).2 c)

variable [DecidableEq ν]

omit [DecidableEq κ] in
lemma held_of_heldAs {v : ν} (h : s.heldAs v = some i) : s.held = some i :=
  (filter_eq_some_iff.1 h).1

lemma Inv.read (h : Inv s) (hlock : s.lock = none) (hidle : s.calls c = .idle) :
    Inv (s.read c) := by
  obtain ⟨k, hk⟩ := h.custody
  unfold ReaderRun.read
  split_ifs with hc
  · exact h
  split
  · exact h
  split
  · rename_i i hi
    have hheld := held_of_heldAs hi
    refine ⟨h.toGuarded.move (.inl hlock) rfl (fun _ => rfl) ?_ fun ht => absurd ht hc,
      hk.enter hidle hheld⟩
    rintro _ _ ⟨⟩
    exact hheld
  exact ⟨h.toGuarded.move (.inl hlock) rfl (fun _ => rfl) nofun fun ht => absurd ht hc,
    k, hk.stay rfl (by rw [hidle]; rfl) (by rw [hidle]; rfl) rfl rfl⟩

lemma Inv.refresh (h : Inv s) (hlock : s.lock = none) (hidle : s.calls c = .idle) :
    Inv (s.refresh c) := by
  unfold ReaderRun.refresh
  split
  · exact h
  split_ifs
  · exact h
  · exact h.letHeldGo s.closed hlock hidle

theorem Inv.step {e : ReaderEvent ν κ} (h : Inv s) (hok : s.Opens e)
    (hst : s.step e = some t) : Inv t := by
  obtain ⟨k, hk⟩ := h.custody
  cases e with simp only [ReaderRun.step] at hst
  | publish =>
    cases hst
    exact ⟨{ h with }, k, hk.version, hk.owes, hk.read, hk.held⟩
  | read =>
    obtain ⟨⟨hlock, hidle⟩, hst⟩ := ite_none_right_eq_some.1 hst
    cases hst
    exact h.read hlock hidle
  | refresh =>
    obtain ⟨⟨hlock, hidle⟩, hst⟩ := ite_none_right_eq_some.1 hst
    cases hst
    exact h.refresh hlock hidle
  | close =>
    obtain ⟨⟨hlock, hidle⟩, hst⟩ := ite_none_right_eq_some.1 hst
    cases hst
    exact h.letHeldGo true hlock hidle
  | lease c =>
    split at hst
    · rename_i v hi hv
      cases hst
      have ho : (s.calls c).Locked := hi ▸ trivial
      exact ⟨h.toGuarded.move (.inr (h.locked c ho)) rfl (fun _ => h.locked c ho) nofun
        fun ht => absurd ho ((h.closed ht).2 c), _, hk.lease hi rfl rfl rfl⟩
    · cases hst
  | leaseFails =>
    obtain ⟨hi, hst⟩ := ite_none_right_eq_some.1 hst
    cases hst
    exact h.unlock (hi ▸ trivial) id rfl rfl rfl
      ⟨k, hk.stay rfl (by rw [hi]; rfl) (by rw [hi]; rfl) rfl rfl⟩
  | mapped =>
    split at hst
    · rename_i i hi
      cases hst
      exact h.install hi
    · cases hst
  | mapFails =>
    split at hst
    · rename_i i hi
      cases hst
      exact h.unlock (hi ▸ trivial) id rfl rfl rfl
        (hk.release (by rw [hi]; rfl) rfl (by rw [hi]; rfl) rfl rfl rfl)
    · cases hst
  | opened =>
    split at hst
    · rename_i i hi
      cases hst
      exact h.unlock (hi ▸ trivial) id rfl rfl rfl
        ⟨k, hk.stay rfl (by rw [hi]; rfl) (by rw [hi]; rfl) rfl rfl⟩
    · rename_i i l hi
      cases hst
      exact h.unlock (hi ▸ trivial) id rfl rfl rfl
        ⟨k, hk.stay rfl (by rw [hi]; rfl) (by rw [hi]; rfl) rfl rfl⟩
    · cases hst
  | openFails c =>
    split at hst
    · rename_i i l hi
      cases hst
      -- the version is the one held: the read that fails to open leaves it kept
      have hl : l = none := by
        by_contra he
        exact hok (by rw [hi]; exact he)
      obtain ⟨us, hu⟩ := (hk.held i).1 (h.opening c i l hi)
      refine h.unlock (hi ▸ trivial) id rfl rfl rfl
        (hk.leave (by rw [hi]; rfl) (by rw [hi]; exact hl) rfl rfl rfl rfl fun j => ?_)
      simp [owes, hu, Custody.leave]
    · cases hst
  | letGo =>
    split at hst
    · rename_i i l hi
      cases hst
      exact h.release (by rw [hi]; rfl) rfl (by rw [hi]; rfl) id
    · cases hst
  | closeVersion =>
    split at hst
    · rename_i i hi
      cases hst
      exact h.release (by rw [hi]; rfl) rfl (by rw [hi]; rfl) id
    · cases hst
  | leave =>
    split at hst
    · rename_i i hi
      obtain ⟨hlock, hst⟩ := ite_none_right_eq_some.1 hst
      cases hst
      exact h.leave hi rfl
    · cases hst

/-- In every run, a lease that is held is that of an open read, or kept for the next one, or one
call has yet to release it; none is released twice. -/
theorem inv_of_run {es : List (ReaderEvent ν κ)}
    (hr : ((reader ν κ).guard Opens).run start es = some s) : Inv s := by
  refine StepSystem.run_guard_invariant _ (I := Inv) (fun s e t h ho ht => ?_) Inv.start hr
  exact h.step ho ht

/-- In every run in which no cursor fails to open while a replaced version is still to be let go,
leases, mappings and other cursors failing at will: the version of every open read keeps its lease,
and none is released twice. With no call in progress, a lease still held is that of an open read's
version or the one kept for the next read; a closed reader keeps none. -/
theorem leases_let_go {es : List (ReaderEvent ν κ)}
    (hrun : ((reader ν κ).guard Opens).run start es = some s) :
    (∀ c i, (s.calls c).version = some i → ∃ x ∈ s.versions[i]?, x.lease.descriptor = true) ∧
    (∀ x ∈ s.versions, x.lease.releases ≤ 1) ∧
    ((∀ c, (s.calls c).Rests) → ∀ i, ∀ x ∈ s.versions[i]?, x.lease.descriptor = true →
      (∃ c, s.calls c = .reading i) ∨ s.held = some i ∧ s.closed = false) := by
  have h := inv_of_run hrun
  obtain ⟨k, hk⟩ := h.custody
  refine ⟨fun c i hc => ?_, fun x hx => ?_, fun hr i x hx hd => ?_⟩
  · exact (hk.version i).descriptor ((hk.read c i).1 hc)
  · obtain ⟨i, hi⟩ := List.mem_iff_getElem?.1 hx
    exact (hk.version i).releases_le hi
  obtain ⟨c, hc⟩ | he | ⟨c, hc⟩ := (hk.version i).custody hx hd
  · have ho := (hk.owes c i).2 hc
    rw [(hr c).owes] at ho
    cases ho
  · have hheld := (hk.held i).2 he
    refine .inr ⟨hheld, Bool.eq_false_iff.2 fun hl => ?_⟩
    rw [(h.closed hl).1] at hheld
    cases hheld
  · exact .inl ⟨c, (hr c).eq_reading ((hk.read c i).2 hc)⟩

/-- A read of the first version is open while two more are published and one cannot be mapped; then
it ends, and its version is closed. -/
def replacedReads : List (ReaderEvent ℕ Bool) :=
  [.publish (some 1), .read true, .lease true, .mapped true, .opened true,
    .publish (some 2), .read false, .lease false, .mapFails false,
    .publish (some 3), .read false, .lease false, .mapped false, .opened false,
    .leave true, .closeVersion true, .leave false]

theorem leases_of_replacedReads :
    ∃ s, ((reader ℕ Bool).guard Opens).run start replacedReads = some s ∧
      (s.versions.map fun x => (x.lease.version, x.lease.descriptor, x.lease.releases)) =
        [(1, false, 1), (2, false, 1), (3, true, 0)] ∧ s.held = some 2 ∧
      ∀ i, ∀ x ∈ s.versions[i]?, x.lease.descriptor = true →
        (∃ c, s.calls c = .reading i) ∨ s.held = some i ∧ s.closed = false := by
  refine StepSystem.exists_run_imp _ (p := fun s =>
    (s.versions.map fun x => (x.lease.version, x.lease.descriptor, x.lease.releases)) =
      [(1, false, 1), (2, false, 1), (3, true, 0)] ∧ s.held = some 2 ∧ ∀ c, (s.calls c).Rests)
    (by decide) fun s hr hs => ?_
  exact ⟨hs.1, hs.2.1, (leases_let_go hr).2.2 hs.2.2⟩

/-- A read maps the second version in place of the first, which nobody reads, and its cursor cannot
be opened: with no call in progress the first version's lease is held by no read and not for the
next one. -/
theorem lease_kept_for_nobody : ∃ s, (reader ℕ Bool).run start
        [.publish (some 1), .read true, .lease true, .mapped true, .opened true, .leave true,
          .publish (some 2), .read true, .lease true, .mapped true, .openFails true] = some s ∧
      (∀ c, s.calls c = .idle) ∧ s.held = some 1 ∧
      ∃ x ∈ s.versions[0]?, x.lease.descriptor = true ∧ x.reads = 0 ∧ x.superseded = true :=
  StepSystem.exists_run_of_any _ (by decide)

end ReaderRun

end ThreeTears
