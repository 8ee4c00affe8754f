import ThreeTears.Shared.StoreRoom

/-!
# A shared store stays within its bytes

What the store counts by its files and what it has reserved are together at most its bound, and an
open slot or a hand-off being written holds at most its reservation. A version is written into what
was left as its write began: what is counted since is in the results claimed and the hand-offs
written since, or is the version's own.
-/

namespace ThreeTears

open Function List LinkedFiles Option StepSystem

variable {F δ σ : Type*}

namespace ShmStore

variable [DecidableEq σ] {s s' : ShmStore F δ σ} {k : DirOwner σ} {w : BoundedWrite F δ σ}
  {v : VersionWrite F δ σ} {maxBytes : Nat}

/-- Where files are. A file in a directory of an open slot, or of a hand-off that is being written,
is in no other one. -/
structure Placed (s : ShmStore F δ σ) : Prop where
  nodup : (s.made.map Prod.fst).Nodup
  made : ∀ r ∈ s.made, r.1 ≠ .version
  reserved : ∀ r ∈ s.reserved, r ∈ s.made
  here : ∀ f, ∀ d ∈ s.fs.dirs f, f ∈ s.fs.files ∧ s.place d ≠ .absent
  owner : ∀ f, ∀ d ∈ s.fs.dirs f, s.owner d = .version ∨ s.owner d ∈ s.made.map Prod.fst
  lone : ∀ f, ∀ d ∈ s.fs.dirs f, s.isReserved (s.owner d) → ∀ d' ∈ s.fs.dirs f, d' = d

/-- A write under way: its directory has all files of its slot or hand-off. -/
structure Writes (s : ShmStore F δ σ) (w : BoundedWrite F δ σ) : Prop where
  made : (w.owner, w.bound) ∈ s.made
  owner : s.owner w.dir = w.owner
  place : s.place w.dir ≠ .absent ∧ s.place w.dir ≠ .named
  within : w.written ≤ w.bound
  bytes : s.bytesOf w.owner ≤ w.written
  file : ∀ f ∈ w.file, f ∈ s.fs.files ∧ ∀ d ∈ s.fs.dirs f, d = w.dir
  home : ∀ f, ∀ d ∈ s.fs.dirs f, s.owner d = w.owner → d = w.dir
  handoff : w.owner.isHandoff → (w.owner, w.bound) ∈ s.reserved

structure Publishes (s : ShmStore F δ σ) (v : VersionWrite F δ σ) : Prop where
  owner : s.owner v.dir = .version
  place : s.place v.dir ≠ .absent ∧ s.place v.dir ≠ .named
  file : ∀ f ∈ v.file, f ∈ s.fs.files ∧ ∀ d ∈ s.fs.dirs f, d = v.dir
  before : ∀ k ∈ v.before, k ∈ s.made.map Prod.fst ∧ ¬s.isReserved k
  owned : ∀ r ∈ s.ownedBytes, r.1 ∉ v.before → r.1 ∈ s.owned
  bytes : s.fs.bytesIn s.counted ≤ v.files + s.ownedSince v.before + v.written

structure Inv (maxBytes : Nat) (s : ShmStore F δ σ) : Prop where
  placed : s.Placed
  writes : ∀ w ∈ s.writes, s.Writes w
  writers : (s.writes.map BoundedWrite.owner).Nodup
  target : ∀ k d, s.target k = some d → k ≠ .version ∧ (∀ w ∈ s.writes, w.owner ≠ k) ∧
    ∀ f, ∀ d' ∈ s.fs.dirs f, s.owner d' = k → d' = d
  owned : ∀ r ∈ s.ownedBytes, r.1 ∈ s.made.map Prod.fst ∧ ¬s.isReserved r.1
  bounds : ∀ r ∈ s.reserved, s.bytesOf r.1 ≤ r.2
  publish : ∀ v ∈ s.publish, s.Publishes v
  room : s.fs.bytesIn s.counted + s.reservedBytes ≤ maxBytes

lemma isReserved_iff : s.isReserved k ↔ ∃ b, (k, b) ∈ s.reserved := by
  simp only [isReserved, List.any_eq_true, decide_eq_true_eq]
  constructor
  · rintro ⟨⟨k', b⟩, hr, rfl⟩
    exact ⟨b, hr⟩
  rintro ⟨b, hr⟩
  exact ⟨(k, b), hr, rfl⟩

lemma Placed.mem_made (h : s.Placed) (hk : s.isReserved k) : k ∈ s.made.map Prod.fst := by
  obtain ⟨b, hr⟩ := isReserved_iff.1 hk
  exact mem_map_of_mem (h.reserved _ hr)

lemma Placed.bound_eq {b b' : Nat} (h : s.Placed) (hb : (k, b) ∈ s.made) (hb' : (k, b') ∈ s.made) :
    b = b' :=
  congrArg Prod.snd (inj_on_of_nodup_map h.nodup hb hb' rfl)

lemma Placed.not_reserved_version (h : s.Placed) : ¬s.isReserved .version := fun hk => by
  obtain ⟨b, hr⟩ := isReserved_iff.1 hk
  exact h.made _ (h.reserved _ hr) rfl

/-- The whole directory holds at most what is counted and what is reserved. -/
theorem Inv.total_le (h : s.Inv maxBytes) : s.fs.total ≤ maxBytes := by
  have hl : s.fs.total ≤ s.fs.bytesIn fun d =>
      s.counted d || s.reserved.any fun r => decide (s.owner d = r.1) := by
    refine bytesIn_mono fun d _ => ?_
    by_cases hd : s.isReserved (s.owner d)
    · obtain ⟨b, hr⟩ := isReserved_iff.1 hd
      exact Bool.or_eq_true_iff.2 (.inr (any_eq_true.2 ⟨_, hr, decide_eq_true rfl⟩))
    · exact Bool.or_eq_true_iff.2 (.inl (by simpa [counted] using hd))
  have hu : (s.reserved.map fun r => s.bytesOf r.1).sum ≤ s.reservedBytes := sum_le_sum h.bounds
  have han := bytesIn_any_le (s := s.fs) (p := s.counted) s.reserved
    fun r d => decide (s.owner d = r.1)
  have ho := h.room
  unfold bytesOf at hu
  omega

lemma Writes.mono (h : s.Writes w) (hm : ∀ r ∈ s.made, r ∈ s'.made)
    (howner : s'.owner w.dir = s.owner w.dir)
    (hl : s'.place w.dir ≠ .absent ∧ s'.place w.dir ≠ .named)
    (hb : s'.bytesOf w.owner ≤ s.bytesOf w.owner) (hfi : s.fs.files ⊆ s'.fs.files)
    (hi : ∀ f, ∀ d ∈ s'.fs.dirs f, d ∈ s.fs.dirs f ∧ s'.owner d = s.owner d ∨
      f ∉ w.file ∧ (s'.owner d = w.owner → d = w.dir))
    (hr : w.owner.isHandoff → (w.owner, w.bound) ∈ s.reserved →
      (w.owner, w.bound) ∈ s'.reserved) : s'.Writes w where
  made := hm _ h.made
  owner := howner.trans h.owner
  place := hl
  within := h.within
  bytes := hb.trans h.bytes
  file := fun f hf => ⟨hfi (h.file f hf).1, fun d hd => (hi f d hd).elim
    (fun hold => (h.file f hf).2 d hold.1) fun hnew => absurd hf hnew.1⟩
  home := fun f d hd hown => (hi f d hd).elim
    (fun hold => h.home f d hold.1 (hold.2.symm.trans hown)) fun hnew => hnew.2 hown
  handoff := fun hk => hr hk (h.handoff hk)

lemma Publishes.mono (h : s.Publishes v) (howner : s'.owner v.dir = s.owner v.dir)
    (hl : s'.place v.dir ≠ .absent ∧ s'.place v.dir ≠ .named)
    (hi : s.fs.files ⊆ s'.fs.files) (hfl : ∀ f ∈ v.file, ∀ d ∈ s'.fs.dirs f, d ∈ s.fs.dirs f)
    (hm : ∀ r ∈ s.made, r ∈ s'.made) (hrs : ∀ k ∈ v.before, s'.isReserved k → s.isReserved k)
    (ho : ∀ r ∈ s'.ownedBytes, r.1 ∉ v.before →
      r ∈ s.ownedBytes ∧ (r.1 ∈ s.owned → r.1 ∈ s'.owned) ∨ r.1 ∈ s'.owned)
    (hb : s'.fs.bytesIn s'.counted + s.ownedSince v.before ≤
      s.fs.bytesIn s.counted + s'.ownedSince v.before) : s'.Publishes v where
  owner := howner.trans h.owner
  place := hl
  file := fun f hf => ⟨hi (h.file f hf).1, fun d hd => (h.file f hf).2 d (hfl f hf d hd)⟩
  before := fun k hk => by
    obtain ⟨hmem, hno⟩ := h.before k hk
    obtain ⟨r, hr, rfl⟩ := List.mem_map.1 hmem
    exact ⟨mem_map_of_mem (hm r hr), fun he => hno (hrs r.1 hk he)⟩
  owned := fun r hr hno => (ho r hr hno).elim (fun hold => hold.2 (h.owned r hold.1 hno)) id
  bytes := by
    have hold := h.bytes
    omega

/-- The files, their directories' owners and the reservations are as they were. -/
structure SameRoom (s s' : ShmStore F δ σ) : Prop where
  fs : s'.fs = s.fs
  owner : s'.owner = s.owner
  made : s'.made = s.made
  reserved : s'.reserved = s.reserved
  place : ∀ d, s.place d ≠ .absent → s'.place d ≠ .absent

namespace SameRoom

variable (h : s.SameRoom s')
include h

lemma isReserved (k : DirOwner σ) : s'.isReserved k = s.isReserved k := by
  rw [ShmStore.isReserved, h.reserved, ← ShmStore.isReserved]

lemma counted : s'.counted = s.counted := by
  funext d
  rw [ShmStore.counted, h.isReserved, h.owner, ← ShmStore.counted]

lemma bytesOf (k : DirOwner σ) : s'.bytesOf k = s.bytesOf k := by
  rw [ShmStore.bytesOf, h.fs, h.owner, ← ShmStore.bytesOf]

lemma writes (hw : s.Writes w) (hl : s'.place w.dir ≠ .named) : s'.Writes w := by
  refine hw.mono (fun r hr => h.made ▸ hr) (congrFun h.owner _) ⟨h.place _ hw.place.1, hl⟩
    (h.bytesOf _).le (h.fs ▸ subset_rfl) (fun f d hd => .inl ⟨h.fs ▸ hd, congrFun h.owner _⟩)
    fun _ hr => h.reserved ▸ hr

lemma publishes (hv : s.Publishes v) (hl : s'.place v.dir ≠ .named)
    (ho : ∀ r ∈ s'.ownedBytes, r.1 ∉ v.before → r.1 ∈ s'.owned)
    (hb : s.ownedSince v.before ≤ s'.ownedSince v.before) : s'.Publishes v := by
  refine hv.mono (congrFun h.owner _) ⟨h.place _ hv.place.1, hl⟩ (h.fs ▸ subset_rfl)
    (fun f _ d hd => h.fs ▸ hd)
    (fun r hr => h.made ▸ hr) (fun k _ hk => by rwa [h.isReserved] at hk)
    (fun r hr hno => .inr (ho r hr hno)) ?_
  rw [h.counted, h.fs]
  omega

omit h

lemma inv (hsa : s.SameRoom s') (h : s.Inv maxBytes) (hw : ∀ w ∈ s'.writes, s'.Writes w)
    (hwr : (s'.writes.map BoundedWrite.owner).Nodup)
    (ht : ∀ k d, s'.target k = some d → k ≠ .version ∧ (∀ w ∈ s'.writes, w.owner ≠ k) ∧
      ∀ f, ∀ d' ∈ s.fs.dirs f, s.owner d' = k → d' = d)
    (ho : ∀ r ∈ s'.ownedBytes, r ∈ s.ownedBytes) (hu : ∀ v ∈ s'.publish, s'.Publishes v) :
    s'.Inv maxBytes := by
  have hl := h.placed
  refine ⟨⟨hsa.made ▸ hl.nodup, hsa.made ▸ hl.made, ?_, ?_, ?_, ?_⟩, hw, hwr, ?_, ?_, ?_, hu, ?_⟩
  · rw [hsa.reserved, hsa.made]
    exact hl.reserved
  · rw [hsa.fs]
    exact fun f d hd => ⟨(hl.here f d hd).1, hsa.place d (hl.here f d hd).2⟩
  · rw [hsa.fs, hsa.owner, hsa.made]
    exact hl.owner
  · rw [hsa.fs, hsa.owner]
    simp only [hsa.isReserved]
    exact hl.lone
  · rw [hsa.fs, hsa.owner]
    exact ht
  · simp only [hsa.made, hsa.isReserved]
    exact fun r hr => h.owned r (ho r hr)
  · simp only [hsa.reserved, hsa.bytesOf]
    exact h.bounds
  rw [hsa.fs, hsa.counted, reservedBytes, hsa.reserved]
  exact h.room

end SameRoom

section Reserve

variable {bound : Nat}

lemma Placed.owner_ne (h : s.Placed) (hv : k ≠ .version) (hk : k ∉ s.made.map Prod.fst) :
    ∀ f, ∀ d ∈ s.fs.dirs f, s.owner d ≠ k := by
  rintro f d hd rfl
  exact (h.owner f d hd).elim hv hk

lemma Inv.reserve (h : s.Inv maxBytes) (hv : k ≠ .version) (hk : k ∉ s.made.map Prod.fst)
    (hro : s.fs.bytesIn s.counted + s.reservedBytes + bound ≤ maxBytes) :
    Inv maxBytes { s with reserved := (k, bound) :: s.reserved, made := (k, bound) :: s.made } := by
  have hne := h.placed.owner_ne hv hk
  have hrs : ∀ k', k' ≠ k →
      isReserved { s with reserved := (k, bound) :: s.reserved, made := (k, bound) :: s.made } k' =
        s.isReserved k' := fun k' hn' => by
    simp [isReserved, Ne.symm hn']
  have hm : ∀ r ∈ s.made, r ∈ (k, bound) :: s.made := fun r hr => mem_cons_of_mem _ hr
  have hkeys : ∀ k' ∈ s.made.map Prod.fst, k' ≠ k := fun k' hk' hq => hk (hq ▸ hk')
  have hc : s.fs.bytesIn (counted { s with
      reserved := (k, bound) :: s.reserved, made := (k, bound) :: s.made }) =
      s.fs.bytesIn s.counted :=
    bytesIn_congr fun f d hd => congrArg Bool.not (hrs _ (hne f d hd))
  have hl := h.placed
  refine ⟨⟨?_, ?_, ?_, hl.here, ?_, ?_⟩, ?_, h.writers, h.target, ?_, ?_, ?_, ?_⟩
  · rw [map_cons]
    exact nodup_cons.2 ⟨hk, hl.nodup⟩
  · exact forall_mem_cons.2 ⟨hv, hl.made⟩
  · intro r hr
    obtain rfl | hr := mem_cons.1 hr
    · exact mem_cons_self
    · exact hm r (hl.reserved r hr)
  · intro f d hd
    exact (hl.owner f d hd).imp_right fun hmem => mem_cons_of_mem _ hmem
  · intro f d hd he
    rw [hrs _ (hne f d hd)] at he
    exact hl.lone f d hd he
  · intro w hw
    exact (h.writes w hw).mono hm rfl (h.writes w hw).place le_rfl subset_rfl
      (fun f d hd => .inl ⟨hd, rfl⟩) fun _ hr => mem_cons_of_mem _ hr
  · intro r hr
    obtain ⟨hmem, ho⟩ := h.owned r hr
    rw [← hrs _ (hkeys _ hmem)] at ho
    exact ⟨mem_cons_of_mem _ hmem, ho⟩
  · intro r hr
    obtain rfl | hr := mem_cons.1 hr
    · have hz : s.bytesOf k = 0 := bytesIn_eq_zero fun f d hd => decide_eq_false (hne f d hd)
      exact hz.trans_le (Nat.zero_le _)
    · exact h.bounds r hr
  · intro v hv'
    have hu := h.publish v hv'
    refine hu.mono rfl hu.place subset_rfl (fun _ _ _ hd => hd) hm (fun k' hk' he => ?_)
      (fun r hr _ => .inl ⟨hr, id⟩) (le_of_eq ?_)
    · rwa [hrs _ (hkeys _ (hu.before k' hk').1)] at he
    · exact congrArg (· + s.ownedSince v.before) hc
  have hsu : reservedBytes { s with
      reserved := (k, bound) :: s.reserved, made := (k, bound) :: s.made } =
      bound + s.reservedBytes := by simp [reservedBytes]
  rw [hsu, hc]
  omega

end Reserve

section Mkdir

variable {d : δ}

lemma Placed.ne_of_absent (h : s.Placed) (hd : s.place d = .absent) :
    ∀ f, ∀ d' ∈ s.fs.dirs f, d' ≠ d := by
  rintro f d' hd' rfl
  exact (h.here f d' hd').2 hd

variable [DecidableEq δ]

lemma Placed.bytesOf_mkdir (h : s.Placed) (hd : s.place d = .absent) (k' : DirOwner σ) :
    (s.mkdir d k).bytesOf k' = s.bytesOf k' :=
  bytesIn_congr fun f d' hd' =>
    congrArg (fun o => decide (o = k')) (update_of_ne (h.ne_of_absent hd f d' hd') _ _)

lemma Placed.bytesIn_mkdir (h : s.Placed) (hd : s.place d = .absent) :
    s.fs.bytesIn (s.mkdir d k).counted = s.fs.bytesIn s.counted :=
  bytesIn_congr fun f d' hd' =>
    congrArg (fun o => !s.isReserved o) (update_of_ne (h.ne_of_absent hd f d' hd') _ _)

variable (h : s.Inv maxBytes)
include h

variable (hd : s.place d = .absent)
include hd

lemma Inv.mkdir : (s.mkdir d k).Inv maxBytes := by
  have hl := h.placed
  have howner : ∀ d', d' ≠ d → (s.mkdir d k).owner d' = s.owner d' := fun d' he =>
    update_of_ne he _ _
  have hpa : ∀ d', d' ≠ d → (s.mkdir d k).place d' = s.place d' := fun d' he =>
    update_of_ne he _ _
  have he := hl.ne_of_absent hd
  have hold : ∀ d', s.place d' ≠ .absent → d' ≠ d := fun d' hp hq => hp (hq ▸ hd)
  refine ⟨{ hl with here := ?_, owner := ?_, lone := ?_ }, ?_, h.writers, ?_, h.owned, ?_, ?_, ?_⟩
  · intro f d' hd'
    rw [hpa d' (he f d' hd')]
    exact hl.here f d' hd'
  · intro f d' hd'
    rw [howner d' (he f d' hd')]
    exact hl.owner f d' hd'
  · intro f d' hd' hre
    rw [howner d' (he f d' hd')] at hre
    exact hl.lone f d' hd' hre
  · intro w hw
    have hws := h.writes w hw
    have hi := hold w.dir hws.place.1
    refine hws.mono (fun _ hr => hr) (howner _ hi) ?_ (hl.bytesOf_mkdir hd _).le
      subset_rfl (fun f d' hd' => .inl ⟨hd', howner _ (he f d' hd')⟩) fun _ hr => hr
    rw [hpa _ hi]
    exact hws.place
  · intro k' d' ht
    obtain ⟨hve, hwr, hh⟩ := h.target k' d' ht
    refine ⟨hve, hwr, fun f d'' hd'' hq => hh f d'' hd'' ?_⟩
    rwa [howner _ (he f d'' hd'')] at hq
  · intro r hr
    rw [hl.bytesOf_mkdir hd]
    exact h.bounds r hr
  · intro v hv
    have hu := h.publish v hv
    have hi := hold v.dir hu.place.1
    refine hu.mono (howner _ hi) ?_ subset_rfl (fun _ _ _ hd' => hd') (fun _ hr => hr)
      (fun _ _ hre => hre) (fun r hr _ => .inl ⟨hr, id⟩) ?_
    · rw [hpa _ hi]
      exact hu.place
    · exact (congrArg (· + s.ownedSince v.before) (hl.bytesIn_mkdir hd)).le
  have ho := h.room
  rw [← hl.bytesIn_mkdir (k := k) hd] at ho
  exact ho

lemma Inv.startWrite {bound : Nat} (ht : s.target k = none) (hma : (k, bound) ∈ s.made)
    (hwr : ∀ w ∈ s.writes, w.owner ≠ k) (he : ∀ f, ∀ d' ∈ s.fs.dirs f, s.owner d' ≠ k)
    (hh : k.isHandoff → (k, bound) ∈ s.reserved) :
    Inv maxBytes { s.mkdir d k with writes := ⟨k, bound, d, 0, none⟩ :: s.writes } := by
  have hm := h.mkdir (k := k) hd
  have hnew : (s.mkdir d k).Writes ⟨k, bound, d, 0, none⟩ := by
    have hl : (s.mkdir d k).place d = .staging := update_self _ _ _
    refine ⟨hma, update_self _ _ _, ?_, Nat.zero_le _, ?_, by rintro _ ⟨⟩, ?_, hh⟩
    · rw [hl]
      exact ⟨by rintro ⟨⟩, by rintro ⟨⟩⟩
    · rw [h.placed.bytesOf_mkdir hd]
      exact (bytesIn_eq_zero fun f d' hd' => decide_eq_false (he f d' hd')).le
    intro f d' hd' hq
    have howner : (s.mkdir d k).owner d' = s.owner d' :=
      update_of_ne (h.placed.ne_of_absent hd f d' hd') _ _
    exact absurd (howner.symm.trans hq) (he f d' hd')
  have hsa : (s.mkdir d k).SameRoom
      { s.mkdir d k with writes := ⟨k, bound, d, 0, none⟩ :: s.writes } :=
    ⟨rfl, rfl, rfl, rfl, fun _ hp => hp⟩
  refine hsa.inv hm ?_ ?_ ?_ (fun _ hr => hr) fun v hv => ?_
  · intro w hw
    obtain rfl | hw := mem_cons.1 hw
    · exact hsa.writes hnew hnew.place.2
    · exact hsa.writes (hm.writes w hw) (hm.writes w hw).place.2
  · rw [map_cons]
    refine nodup_cons.2 ⟨fun hmem => ?_, h.writers⟩
    obtain ⟨w, hw, hq⟩ := List.mem_map.1 hmem
    exact hwr w hw hq
  · intro k' d' hsome
    obtain ⟨hve, ho, hho⟩ := hm.target k' d' hsome
    refine ⟨hve, forall_mem_cons.2 ⟨?_, ho⟩, hho⟩
    rintro rfl
    cases ht.symm.trans hsome
  have hu := hm.publish v hv
  exact hsa.publishes hu hu.place.2 hu.owned le_rfl

lemma Inv.startPublish : Inv maxBytes { s.mkdir d .version with
      publish := some ⟨d, s.fs.bytesIn s.counted, s.ownedBytes.map Prod.fst, 0, none⟩ } := by
  have hm := h.mkdir (k := .version) hd
  have hsa : (s.mkdir d .version).SameRoom { s.mkdir d .version with
      publish := some ⟨d, s.fs.bytesIn s.counted, s.ownedBytes.map Prod.fst, 0, none⟩ } :=
    ⟨rfl, rfl, rfl, rfl, fun _ hp => hp⟩
  refine hsa.inv hm (fun w hw => hsa.writes (hm.writes w hw) (hm.writes w hw).place.2)
    hm.writers hm.target (fun _ hr => hr) ?_
  rintro _ ⟨⟩
  have hl : (s.mkdir d .version).place d = .staging := update_self _ _ _
  refine ⟨update_self _ _ _, ?_, by rintro _ ⟨⟩, ?_, ?_, ?_⟩
  · exact ⟨fun hp => (by cases hl.symm.trans hp), fun hp => (by cases hl.symm.trans hp)⟩
  · intro k hk
    obtain ⟨r, hr, rfl⟩ := List.mem_map.1 hk
    exact h.owned r hr
  · exact fun r hr ho => absurd (mem_map_of_mem hr) ho
  · exact (h.placed.bytesIn_mkdir hd).le.trans ((Nat.le_add_right _ _).trans (Nat.le_add_right _ _))

end Mkdir

section Files

variable {d : δ} {f : F} {n : Nat} {w' : BoundedWrite F δ σ} (h : s.Inv maxBytes)
include h

lemma Inv.eq_of_dir (hw : w ∈ s.writes) (hw' : w' ∈ s.writes) (hi : w'.dir = w.dir) : w' = w := by
  have howner : w'.owner = w.owner := by
    rw [← (h.writes w hw).owner, ← (h.writes w' hw').owner, hi]
  exact inj_on_of_nodup_map h.writers hw' hw howner

variable [DecidableEq δ]

omit [DecidableEq σ] h in
lemma mem_setWrite (h : w' ∈ (s.setWrite d w).writes) : w' = w ∨ w' ∈ s.writes ∧ w'.dir ≠ d := by
  obtain ⟨w'', hw'', he⟩ := List.mem_map.1 h
  split_ifs at he with hi
  · exact .inl he.symm
  · exact .inr ⟨he ▸ hw'', he ▸ hi⟩

omit [DecidableEq σ] h in
lemma mem_of_writeIn (h : s.writeIn d = some w) : w ∈ s.writes ∧ w.dir = d :=
  ⟨mem_of_find?_eq_some h, by simpa using List.find?_some h⟩

lemma Inv.writers_setWrite (hw : w ∈ s.writes) (hi : w.dir = d) (howner : w'.owner = w.owner) :
    ((s.setWrite d w').writes.map BoundedWrite.owner).Nodup := by
  have hsa : (s.setWrite d w').writes.map BoundedWrite.owner = s.writes.map BoundedWrite.owner := by
    simp only [setWrite, List.map_map]
    refine List.map_congr_left fun w'' hw'' => ?_
    simp only [Function.comp_apply]
    split_ifs with he
    · rw [howner, h.eq_of_dir hw hw'' (he.trans hi.symm)]
    · rfl
  rw [hsa]
  exact h.writers

omit [DecidableEq δ] in
lemma Inv.owner_ne_version (hw : w ∈ s.writes) : w.owner ≠ .version :=
  h.placed.made _ (h.writes w hw).made

/-- Names of files go, and `New` ones come, in the directory of a write or of the version. -/
structure Refiled (s : ShmStore F δ σ) (fs : LinkedFiles F δ) (New : F → δ → Prop) : Prop where
  files : s.fs.files ⊆ fs.files
  mem : ∀ f, ∀ d ∈ fs.dirs f, d ∈ s.fs.dirs f ∨ New f d
  here : ∀ f d, New f d → f ∈ fs.files ∧ s.place d ≠ .absent
  owner : ∀ f d, New f d → s.owner d = .version ∨ s.owner d ∈ s.made.map Prod.fst
  lone : ∀ f, ∀ d ∈ fs.dirs f, s.isReserved (s.owner d) → ∀ d' ∈ fs.dirs f, d' = d
  writes : ∀ f d, New f d → ∀ w ∈ s.writes, f ∉ w.file ∧ (s.owner d = w.owner → d = w.dir)
  publish : ∀ f d, New f d → ∀ v ∈ s.publish, f ∉ v.file
  target : ∀ f d, New f d → ∀ k d', s.target k = some d' → s.owner d ≠ k
  counted : fs.bytesIn s.counted ≤ s.fs.bytesIn s.counted
  bytesOf : ∀ k, k ≠ .version → fs.bytesIn (fun d => s.owner d = k) ≤ s.bytesOf k

omit [DecidableEq δ] h in
lemma Refiled.inv {fs : LinkedFiles F δ} {New : F → δ → Prop} (hfs : s.Refiled fs New)
    (h : s.Inv maxBytes) : Inv maxBytes { s with fs := fs } := by
  have hl := h.placed
  refine ⟨{ hl with here := ?_, owner := ?_, lone := hfs.lone }, ?_, h.writers, ?_, h.owned,
    ?_, ?_, ?_⟩
  · intro f d hd
    obtain hd | hnew := hfs.mem f d hd
    · exact ⟨hfs.files (hl.here f d hd).1, (hl.here f d hd).2⟩
    · exact hfs.here f d hnew
  · intro f d hd
    obtain hd | hnew := hfs.mem f d hd
    · exact hl.owner f d hd
    · exact hfs.owner f d hnew
  · intro w hw
    exact (h.writes w hw).mono (fun _ hr => hr) rfl (h.writes w hw).place
      (hfs.bytesOf _ (h.owner_ne_version hw)) hfs.files
      (fun f d hd => (hfs.mem f d hd).imp (fun hd => ⟨hd, rfl⟩)
        fun hnew => hfs.writes f d hnew w hw)
      fun _ hr => hr
  · intro k d hsome
    obtain ⟨hve, hwr, hh⟩ := h.target k d hsome
    refine ⟨hve, hwr, fun f d' hd' he => ?_⟩
    obtain hd' | hnew := hfs.mem f d' hd'
    · exact hh f d' hd' he
    · exact absurd he (hfs.target f d' hnew k d hsome)
  · intro r hr
    exact (hfs.bytesOf r.1 (hl.made _ (hl.reserved r hr))).trans (h.bounds r hr)
  · intro v hv
    refine (h.publish v hv).mono rfl (h.publish v hv).place hfs.files (fun f hf d hd => ?_)
      (fun _ hr => hr) (fun _ _ hk => hk) (fun r hr _ => .inl ⟨hr, id⟩)
      (Nat.add_le_add_right hfs.counted _)
    exact (hfs.mem f d hd).resolve_right fun hnew => hfs.publish f d hnew v hv hf
  · exact (Nat.add_le_add_right hfs.counted _).trans h.room

variable [DecidableEq F]

omit [DecidableEq δ] in
lemma Inv.create (hf : f ∉ s.fs.files) (hl : s.place d ≠ .absent)
    (howner : s.owner d = .version ∨ s.owner d ∈ s.made.map Prod.fst)
    (hwr : ∀ w ∈ s.writes, s.owner d = w.owner → d = w.dir)
    (ht : ∀ k d', s.target k = some d' → s.owner d ≠ k) :
    Inv maxBytes { s with fs := s.fs.create f d } := by
  have hnew : s.Refiled (s.fs.create f d) fun f' d' => f' = f ∧ d' = d :=
    { files := Finset.subset_insert _ _
      mem := fun f' d' hd' => (mem_dirs_create hd').imp_left And.left
      here := by
        rintro _ _ ⟨rfl, rfl⟩
        exact ⟨Finset.mem_insert_self _ _, hl⟩
      owner := by
        rintro _ _ ⟨rfl, rfl⟩
        exact howner
      lone := by
        intro f' d' hd' hr d'' hd''
        obtain ⟨hd', he⟩ | ⟨rfl, rfl⟩ := mem_dirs_create hd'
        · obtain ⟨hd'', -⟩ | ⟨hq, -⟩ := mem_dirs_create hd''
          · exact h.placed.lone f' d' hd' hr d'' hd''
          · exact absurd hq he
        exact eq_of_mem_dirs_create hd''
      writes := by
        rintro _ _ ⟨rfl, rfl⟩ w hw
        exact ⟨fun hi => hf ((h.writes w hw).file _ hi).1, hwr w hw⟩
      publish := by
        rintro _ _ ⟨rfl, rfl⟩ v hv hi
        exact hf ((h.publish v hv).file _ hi).1
      target := by
        rintro _ _ ⟨rfl, rfl⟩
        exact ht
      counted := (bytesIn_create hf).le
      bytesOf := fun k _ => (bytesIn_create hf).le }
  exact hnew.inv h

lemma Inv.unlink : Inv maxBytes { s with fs := s.fs.unlink f d } := by
  have he : s.Refiled (s.fs.unlink f d) fun _ _ => False :=
    { files := subset_rfl
      mem := fun f' d' hd' => .inl (mem_dirs_unlink hd')
      here := fun _ _ => False.elim
      owner := fun _ _ => False.elim
      lone := fun f' d' hd' hr d'' hd'' => h.placed.lone f' d' (mem_dirs_unlink hd') hr
        d'' (mem_dirs_unlink hd'')
      writes := fun _ _ => False.elim
      publish := fun _ _ => False.elim
      target := fun _ _ => False.elim
      counted := bytesIn_unlink_le
      bytesOf := fun k _ => bytesIn_unlink_le }
  exact he.inv h

lemma Inv.link (hv : v ∈ s.publish) (hf : s.fs.In (fun d => s.counted d && s.place d = .named) f) :
    Inv maxBytes { s with fs := s.fs.link f v.dir } := by
  obtain ⟨d₀, hd₀, hna⟩ := hf
  obtain ⟨hc, hna⟩ := Bool.and_eq_true_iff.1 hna
  have hna : s.place d₀ = .named := of_decide_eq_true hna
  have hfree : ¬s.isReserved (s.owner d₀) := by simpa [counted] using hc
  have hu := h.publish v hv
  have hnew : s.Refiled (s.fs.link f v.dir) fun f' d' => f' = f ∧ d' = v.dir :=
    { files := subset_rfl
      mem := fun f' d' hd' => mem_dirs_link hd'
      here := by
        rintro _ _ ⟨rfl, rfl⟩
        exact ⟨(h.placed.here _ d₀ hd₀).1, hu.place.1⟩
      owner := by
        rintro _ _ ⟨rfl, rfl⟩
        exact .inl hu.owner
      lone := by
        intro f' d' hd' hr d'' hd''
        obtain hold | ⟨-, rfl⟩ := mem_dirs_link hd'
        · obtain ho' | ⟨rfl, -⟩ := mem_dirs_link hd''
          · exact h.placed.lone f' d' hold hr d'' ho'
          rw [← h.placed.lone _ d' hold hr d₀ hd₀] at hr
          exact absurd hr hfree
        rw [hu.owner] at hr
        exact absurd hr h.placed.not_reserved_version
      writes := by
        rintro _ _ ⟨rfl, rfl⟩ w hw
        refine ⟨fun hi => (h.writes w hw).place.2 ?_, fun he => ?_⟩
        · rw [← ((h.writes w hw).file _ hi).2 d₀ hd₀]
          exact hna
        · exact absurd (he.symm.trans hu.owner) (h.owner_ne_version hw)
      publish := by
        rintro _ _ ⟨rfl, rfl⟩ v' hv' hi
        apply (h.publish v' hv').place.2
        rw [← ((h.publish v' hv').file _ hi).2 d₀ hd₀]
        exact hna
      target := by
        rintro _ _ ⟨rfl, rfl⟩ k d' hsome
        rw [hu.owner]
        exact Ne.symm (h.target k d' hsome).1
      counted := bytesIn_link_le fun _ => ⟨d₀, hd₀, hc⟩
      bytesOf := fun k hk => bytesIn_link_le fun he =>
        absurd ((of_decide_eq_true he).symm.trans hu.owner) hk }
  exact hnew.inv h

omit [DecidableEq δ] in
lemma Inv.grow (hi : ∀ d' ∈ s.fs.dirs f, d' = d)
    (hwr : ∀ w ∈ s.writes, w.owner = s.owner d → s.bytesOf w.owner + n ≤ w.written)
    (ho : ∀ r ∈ s.reserved, r.1 = s.owner d → s.bytesOf r.1 + n ≤ r.2)
    (hc : s.counted d → s.fs.bytesIn s.counted + n + s.reservedBytes ≤ maxBytes ∧
      ∀ v ∈ s.publish, s.fs.bytesIn s.counted + n ≤ v.files + s.ownedSince v.before + v.written) :
    Inv maxBytes { s with fs := s.fs.grow f n } := by
  have hin : ∀ {p : δ → Bool}, s.fs.In p f → p d := fun ⟨d', hd', hp⟩ => hi d' hd' ▸ hp
  have hy : ∀ k, s.owner d ≠ k →
      bytesOf { s with fs := s.fs.grow f n } k = s.bytesOf k := fun k hne =>
    bytesIn_grow_of_not_in fun h => hne (of_decide_eq_true (hin h))
  have hbytes_le : ∀ k, bytesOf { s with fs := s.fs.grow f n } k ≤ s.bytesOf k + n := fun _ =>
    bytesIn_grow_le
  have hu : ∀ b, (s.counted d → s.fs.bytesIn s.counted + n ≤ b) → s.fs.bytesIn s.counted ≤ b →
      (s.fs.grow f n).bytesIn s.counted ≤ b := fun b hb hle => by
    by_cases hd : s.counted d
    · exact bytesIn_grow_le.trans (hb hd)
    · exact (bytesIn_grow_of_not_in fun h => hd (hin h)).trans_le hle
  have hl := h.placed
  refine ⟨{ hl with },
    fun w hw => ?_, h.writers, h.target, h.owned, fun r hr => ?_, fun v hv => ?_, ?_⟩
  · have hold := h.writes w hw
    refine { hold with bytes := ?_ }
    by_cases he : w.owner = s.owner d
    · exact (hbytes_le _).trans (hwr w hw he)
    rw [hy _ (Ne.symm he)]
    exact hold.bytes
  · by_cases he : r.1 = s.owner d
    · exact (hbytes_le _).trans (ho r hr he)
    rw [hy _ (Ne.symm he)]
    exact h.bounds r hr
  · have hold := h.publish v hv
    exact { hold with bytes := hu _ (fun hd => (hc hd).2 v hv) hold.bytes }
  have hro := h.room
  have hle : (s.fs.grow f n).bytesIn s.counted ≤ maxBytes - s.reservedBytes := by
    refine hu _ (fun hd => ?_) (by omega)
    have hnew := (hc hd).1
    omega
  have hg : (s.fs.grow f n).bytesIn s.counted + s.reservedBytes ≤ maxBytes := by omega
  exact hg

end Files

section Writing

variable [DecidableEq δ] {d : δ} {f : F} {n : Nat} {w' : BoundedWrite F δ σ} (h : s.Inv maxBytes)
include h

lemma Inv.setWrite (hw : s.writeIn d = some w) (howner : w'.owner = w.owner)
    (hi : w'.dir = d) (hnew : s.Writes w') : (s.setWrite d w').Inv maxBytes := by
  obtain ⟨hmem, rfl⟩ := mem_of_writeIn hw
  have hsa : s.SameRoom (s.setWrite w.dir w') := ⟨rfl, rfl, rfl, rfl, fun _ hp => hp⟩
  refine hsa.inv h (fun w₁ hw₁ => ?_) (h.writers_setWrite hmem rfl howner) (fun k d hsome => ?_)
    (fun _ hr => hr) fun v hv => ?_
  · obtain rfl | ⟨hw₁, -⟩ := mem_setWrite hw₁
    · exact hsa.writes hnew hnew.place.2
    · exact hsa.writes (h.writes w₁ hw₁) (h.writes w₁ hw₁).place.2
  · obtain ⟨he, hwr, hh⟩ := h.target k d hsome
    refine ⟨he, fun w₁ hw₁ => ?_, hh⟩
    obtain rfl | ⟨hw₁, -⟩ := mem_setWrite hw₁
    · rw [howner]
      exact hwr w hmem
    · exact hwr w₁ hw₁
  have hu := h.publish v hv
  exact hsa.publishes hu hu.place.2 hu.owned le_rfl

omit [DecidableEq δ] in
lemma Inv.setPublish {v' : VersionWrite F δ σ} (hnew : s.Publishes v') :
    Inv maxBytes { s with publish := some v' } := by
  have hsa : s.SameRoom { s with publish := some v' } := ⟨rfl, rfl, rfl, rfl, fun _ hp => hp⟩
  refine hsa.inv h (fun w hw => hsa.writes (h.writes w hw) (h.writes w hw).place.2) h.writers
    h.target (fun _ hr => hr) ?_
  rintro _ ⟨⟩
  exact hsa.publishes hnew hnew.place.2 hnew.owned le_rfl

variable [DecidableEq F]

lemma Inv.openFile (hw : s.writeIn d = some w) (hf : f ∉ s.fs.files) :
    Inv maxBytes { s.setWrite d { w with file := some f } with fs := s.fs.create f d } := by
  obtain ⟨hmem, rfl⟩ := mem_of_writeIn hw
  have hr := h.writes w hmem
  have hc : Inv maxBytes { s with fs := s.fs.create f w.dir } := by
    refine h.create hf hr.place.1 ?_ (fun w₁ hw₁ he => ?_) fun k d' hsome he => ?_
    · rw [hr.owner]
      exact .inr (mem_map_of_mem hr.made)
    · have howner : w₁.owner = w.owner := he.symm.trans hr.owner
      rw [inj_on_of_nodup_map h.writers hw₁ hmem howner]
    · exact (h.target k d' hsome).2.1 w hmem (hr.owner.symm.trans he)
  have hold := hc.writes w hmem
  refine hc.setWrite (w := w) hw rfl rfl { hold with file := ?_ }
  rintro _ ⟨⟩
  exact ⟨Finset.mem_insert_self _ _, fun _ => eq_of_mem_dirs_create⟩

omit [DecidableEq δ] in
lemma Inv.publishFile (hv : s.publish = some v) (hf : f ∉ s.fs.files) :
    Inv maxBytes
      { s with fs := s.fs.create f v.dir, publish := some { v with file := some f } } := by
  have hu := h.publish v hv
  have hc : Inv maxBytes { s with fs := s.fs.create f v.dir } := by
    refine h.create hf hu.place.1 (.inl hu.owner) (fun w hw he => ?_) fun k d' hsome he => ?_
    · exact absurd (he.symm.trans hu.owner) (h.owner_ne_version hw)
    · exact (h.target k d' hsome).1 (he.symm.trans hu.owner)
  have hold := hc.publish v hv
  refine hc.setPublish { hold with file := ?_ }
  rintro _ ⟨⟩
  exact ⟨Finset.mem_insert_self _ _, fun _ => eq_of_mem_dirs_create⟩

lemma Inv.batch (hw : s.writeIn d = some w) (hi : w.file = some f)
    (hbo : w.written + n ≤ w.bound) (ho : s.isReserved w.owner) :
    Inv maxBytes { s.setWrite d { w with written := w.written + n } with fs := s.fs.grow f n } := by
  obtain ⟨hmem, rfl⟩ := mem_of_writeIn hw
  have hwr := h.writes w hmem
  have hb := hwr.bytes
  have hse : (s.setWrite w.dir { w with written := w.written + n }).Inv maxBytes :=
    h.setWrite hw rfl rfl ⟨hwr.made, hwr.owner, hwr.place, hbo,
      hb.trans (Nat.le_add_right _ _), hwr.file, hwr.home, hwr.handoff⟩
  refine hse.grow (hwr.file f hi).2 (fun w₁ hw₁ he => ?_) (fun r hr he => ?_) fun hd => ?_
  · obtain rfl | ⟨hw₁, hne⟩ := mem_setWrite hw₁
    · exact Nat.add_le_add_right hb n
    have he : w₁.owner = s.owner w.dir := he
    rw [inj_on_of_nodup_map h.writers hw₁ hmem (he.trans hwr.owner)] at hne
    exact absurd rfl hne
  · have he : r.1 = w.owner := he.trans hwr.owner
    have hm : (w.owner, r.2) ∈ s.made := he ▸ h.placed.reserved r hr
    rw [he, h.placed.bound_eq hm hwr.made]
    exact (Nat.add_le_add_right hb n).trans hbo
  -- an open slot is not counted by its files
  have hd : s.counted w.dir := hd
  rw [counted, hwr.owner, ho] at hd
  cases hd

omit [DecidableEq δ] in
lemma Inv.publishBatch (hv : s.publish = some v) (hi : v.file = some f)
    (ho : s.HasRoom maxBytes v n) : Inv maxBytes { s with
      fs := s.fs.grow f n, publish := some { v with written := v.written + n } } := by
  have hu := h.publish v hv
  have hb := hu.bytes
  unfold HasRoom at ho
  have hse : Inv maxBytes { s with publish := some { v with written := v.written + n } } :=
    h.setPublish ⟨hu.owner, hu.place, hu.file, hu.before, hu.owned,
      hb.trans (Nat.add_le_add_left (Nat.le_add_right _ _) _)⟩
  refine hse.grow (hu.file f hi).2 (fun w hw he => ?_) (fun r hr he => ?_) fun _ => ⟨?_, ?_⟩
  · exact absurd (he.trans hu.owner) (h.owner_ne_version hw)
  · exact absurd (he.trans hu.owner) (h.placed.made _ (h.placed.reserved r hr))
  · have hg : s.fs.bytesIn s.counted + n + s.reservedBytes ≤ maxBytes := by omega
    exact hg
  rintro _ ⟨⟩
  have hg : s.fs.bytesIn s.counted + n ≤
      v.files + s.ownedSince v.before + (v.written + n) := by omega
  exact hg

end Writing

section Settle

variable {b bytes : Nat}

lemma isReserved_unreserve {k' : DirOwner σ} (h : (s.unreserve k).isReserved k') :
    s.isReserved k' ∧ k' ≠ k := by
  obtain ⟨b, hr⟩ := isReserved_iff.1 h
  obtain ⟨hr, he⟩ := mem_filter.1 hr
  exact ⟨isReserved_iff.2 ⟨b, hr⟩, of_decide_eq_true he⟩

lemma unreserve_of_not_isReserved (h : ¬s.isReserved k) : s.unreserve k = s := by
  have hi : s.reserved.filter (fun r => decide (r.1 ≠ k)) = s.reserved := by
    refine filter_eq_self.2 fun r hr => decide_eq_true ?_
    rintro rfl
    exact h (isReserved_iff.2 ⟨r.2, hr⟩)
  rw [unreserve, hi]

lemma bytesIn_unreserve_le :
    s.fs.bytesIn (s.unreserve k).counted ≤ s.fs.bytesIn s.counted + s.bytesOf k := by
  refine le_trans (bytesIn_mono fun d hd => ?_) bytesIn_or_le
  by_cases hk : s.owner d = k
  · exact Bool.or_eq_true_iff.2 (.inr (decide_eq_true hk))
  refine Bool.or_eq_true_iff.2 (.inl ?_)
  have hd : ¬(s.unreserve k).isReserved (s.owner d) := by simpa [counted, unreserve] using hd
  have ho : ¬s.isReserved (s.owner d) := fun he => by
    obtain ⟨b, hr⟩ := isReserved_iff.1 he
    exact hd (isReserved_iff.2 ⟨b, mem_filter.2 ⟨hr, decide_eq_true hk⟩⟩)
  simpa [counted] using ho

lemma sum_filter_add_le {l : List (DirOwner σ × Nat)} (h : (k, b) ∈ l) :
    ((l.filter (·.1 ≠ k)).map Prod.snd).sum + b ≤ (l.map Prod.snd).sum := by
  induction l with
  | nil => cases h
  | cons r l ih =>
    have hle : ((l.filter (·.1 ≠ k)).map Prod.snd).sum ≤ (l.map Prod.snd).sum :=
      (filter_sublist.map _).sum_le_sum fun _ _ => Nat.zero_le _
    obtain rfl | h := mem_cons.1 h
    · rw [filter_cons_of_neg (by simp), map_cons, sum_cons]
      omega
    have hi := ih h
    by_cases hr : r.1 = k
    · rw [filter_cons_of_neg (by simpa using hr), map_cons, sum_cons]
      omega
    rw [filter_cons_of_pos (by simpa using hr), map_cons, map_cons, sum_cons, sum_cons]
    omega

variable (h : s.Inv maxBytes)
include h

lemma Inv.settle {owned : List (DirOwner σ)} {ownedBytes : List (DirOwner σ × Nat)}
    (hk : (k, b) ∈ s.reserved) (hwr : ∀ w ∈ s.writes, w.owner.isHandoff → w.owner ≠ k)
    (ho : ∀ r ∈ ownedBytes, r ∈ s.ownedBytes ∨ r.1 = k) (hu : ∀ v ∈ s.publish,
      (∀ r ∈ ownedBytes, r.1 ∉ v.before →
        r ∈ s.ownedBytes ∧ (r.1 ∈ s.owned → r.1 ∈ owned) ∨ r.1 ∈ owned) ∧
      s.bytesOf k + s.ownedSince v.before ≤
        ((ownedBytes.filter (·.1 ∉ v.before)).map Prod.snd).sum) :
    Inv maxBytes { s.unreserve k with owned := owned, ownedBytes := ownedBytes } := by
  have hc : s.fs.bytesIn (s.unreserve k).counted ≤ s.fs.bytesIn s.counted + s.bytesOf k :=
    bytesIn_unreserve_le
  have hrs : ∀ r ∈ (s.unreserve k).reserved, r ∈ s.reserved := fun r hr =>
    mem_of_mem_filter hr
  have hl := h.placed
  refine ⟨{ hl with
      reserved := fun r hr => hl.reserved r (hrs r hr)
      lone := ?_ }, ?_, h.writers, h.target, ?_, fun r hr => h.bounds r (hrs r hr), ?_, ?_⟩
  · exact fun f d hd he => hl.lone f d hd (isReserved_unreserve he).1
  · intro w hw
    refine (h.writes w hw).mono (fun _ hr => hr) rfl (h.writes w hw).place le_rfl subset_rfl
      (fun f d hd => .inl ⟨hd, rfl⟩) fun hh hr => mem_filter.2 ⟨hr, ?_⟩
    exact decide_eq_true (hwr w hw hh)
  · intro r hr
    obtain hr | rfl := ho r hr
    · obtain ⟨hmem, hno⟩ := h.owned r hr
      exact ⟨hmem, fun he => hno (isReserved_unreserve he).1⟩
    · exact ⟨hl.mem_made (isReserved_iff.2 ⟨b, hk⟩), fun he => (isReserved_unreserve he).2 rfl⟩
  · intro v hv
    obtain ⟨hrc, hsu⟩ := hu v hv
    refine (h.publish v hv).mono rfl (h.publish v hv).place subset_rfl (fun _ _ _ hd => hd)
      (fun _ hr => hr) (fun k' _ he => (isReserved_unreserve he).1) hrc ?_
    have hg : s.fs.bytesIn (s.unreserve k).counted + s.ownedSince v.before ≤
        s.fs.bytesIn s.counted + ((ownedBytes.filter (·.1 ∉ v.before)).map Prod.snd).sum := by omega
    exact hg
  have hb : s.bytesOf k ≤ b := h.bounds _ hk
  have hsu : (s.unreserve k).reservedBytes + b ≤ s.reservedBytes := sum_filter_add_le hk
  have hro := h.room
  have hg : s.fs.bytesIn (s.unreserve k).counted + (s.unreserve k).reservedBytes ≤ maxBytes := by
    omega
  exact hg

lemma Inv.unreserve (hw : ∀ w ∈ s.writes, w.owner.isHandoff → w.owner ≠ k)
    (hu : s.publish.isSome → s.bytesOf k = 0) : (s.unreserve k).Inv maxBytes := by
  by_cases hk : s.isReserved k
  · obtain ⟨b, hk⟩ := isReserved_iff.1 hk
    refine h.settle hk hw (fun r hr => .inl hr) fun v hv => ⟨fun r hr _ => .inl ⟨hr, id⟩, ?_⟩
    rw [hu (by rw [mem_def.1 hv]; rfl), zero_add]
    exact le_rfl
  rw [unreserve_of_not_isReserved hk]
  exact h

lemma Inv.own (hk : (k, b) ∈ s.reserved)
    (hw : ∀ w ∈ s.writes, w.owner.isHandoff → w.owner ≠ k) (hb : s.bytesOf k ≤ bytes) :
    (s.own k bytes).Inv maxBytes := by
  refine h.settle hk hw (fun r hr => ?_) fun v hv => ⟨fun r hr _ => ?_, ?_⟩
  · obtain rfl | hr := mem_cons.1 hr
    · exact .inr rfl
    · exact .inl hr
  · obtain rfl | hr := mem_cons.1 hr
    · exact .inr mem_cons_self
    · exact .inl ⟨hr, fun hmem => mem_cons_of_mem _ hmem⟩
  have ho : k ∉ v.before := fun hmem =>
    ((h.publish v hv).before k hmem).2 (isReserved_iff.2 ⟨b, hk⟩)
  rw [filter_cons_of_pos (by simpa using ho), map_cons, sum_cons]
  exact Nat.add_le_add_right hb _

end Settle

section Names

variable [DecidableEq δ] {d : δ} (h : s.Inv maxBytes)
include h

lemma Inv.dropWrite : (s.dropWrite d).Inv maxBytes := by
  have hsa : s.SameRoom (s.dropWrite d) := ⟨rfl, rfl, rfl, rfl, fun _ hp => hp⟩
  have hmem : ∀ w ∈ (s.dropWrite d).writes, w ∈ s.writes := fun w hw => mem_of_mem_filter hw
  refine hsa.inv h (fun w hw => ?_) (h.writers.sublist (filter_sublist.map _))
    (fun k d' hsome => ?_) (fun _ hr => hr) fun v hv => ?_
  · exact hsa.writes (h.writes w (hmem w hw)) (h.writes w (hmem w hw)).place.2
  · obtain ⟨he, hwr, hh⟩ := h.target k d' hsome
    exact ⟨he, fun w hw => hwr w (hmem w hw), hh⟩
  have hu := h.publish v hv
  exact hsa.publishes hu hu.place.2 hu.owned le_rfl

lemma Inv.rename (hve : s.owner d ≠ .version) (hwr : ∀ w ∈ s.writes, w.owner ≠ s.owner d)
    (hh : ∀ f, ∀ d' ∈ s.fs.dirs f, s.owner d' = s.owner d → d' = d) :
    (s.rename d).Inv maxBytes := by
  have hl : ∀ d', d' ≠ d → (s.rename d).place d' = s.place d' := fun d' he =>
    update_of_ne he _ _
  have hsa : s.SameRoom (s.rename d) := by
    refine ⟨rfl, rfl, rfl, rfl, fun d' hp => ?_⟩
    by_cases he : d' = d
    · have hna : (s.rename d).place d = .named := update_self _ _ _
      rw [he, hna]
      rintro ⟨⟩
    rw [hl d' he]
    exact hp
  refine hsa.inv h (fun w hw => hsa.writes (h.writes w hw) ?_) h.writers (fun k d' hsome => ?_)
    (fun _ hr => hr) fun v hv => ?_
  · have he : w.dir ≠ d := fun hq => hwr w hw (by rw [← (h.writes w hw).owner, hq])
    rw [hl _ he]
    exact (h.writes w hw).place.2
  · have hsome : update s.target (s.owner d) (some d) k = some d' := hsome
    by_cases hk : k = s.owner d
    · rw [hk, update_self] at hsome
      cases hsome
      exact ⟨hk ▸ hve, fun w hw => hk ▸ hwr w hw, fun f d' hd' hq => hh f d' hd' (hq.trans hk)⟩
    rw [update_of_ne hk] at hsome
    exact h.target k d' hsome
  have hu := h.publish v hv
  have he : v.dir ≠ d := fun hq => hve (hq ▸ hu.owner)
  refine hsa.publishes hu ?_ hu.owned le_rfl
  rw [hl _ he]
  exact hu.place.2

lemma Inv.endWrite (hw : s.writeIn d = some w) : (s.endWrite w).Inv maxBytes := by
  obtain ⟨hmem, rfl⟩ := mem_of_writeIn hw
  have hwr := h.writes w hmem
  have ho : ∀ w₁ ∈ (s.dropWrite w.dir).writes, w₁.owner ≠ w.owner := by
    intro w₁ hw₁ hq
    obtain ⟨hw₁, he⟩ := mem_filter.1 hw₁
    rw [inj_on_of_nodup_map h.writers hw₁ hmem hq] at he
    exact of_decide_eq_true he rfl
  have hr : ((s.dropWrite w.dir).rename w.dir).Inv maxBytes := by
    have howner : (s.dropWrite w.dir).owner w.dir = w.owner := hwr.owner
    apply h.dropWrite.rename
    · rw [howner]
      exact h.owner_ne_version hmem
    · rw [howner]
      exact ho
    rw [howner]
    exact hwr.home
  unfold endWrite
  split_ifs with hh ht
  · exact hr.own (hwr.handoff hh) (fun w₁ hw₁ _ => ho w₁ hw₁) hwr.bytes
  · exact hr
  · exact h.dropWrite

lemma Inv.failWrite (hw : s.writeIn d = some w)
    (hu : s.publish.isSome → w.owner.isHandoff → s.bytesOf w.owner = 0) :
    (s.failWrite w).Inv maxBytes := by
  obtain ⟨hmem, rfl⟩ := mem_of_writeIn hw
  unfold failWrite
  split_ifs with hh
  · refine h.dropWrite.unreserve (fun w₁ hw₁ _ hq => ?_) fun hsome => hu hsome hh
    obtain ⟨hw₁, he⟩ := mem_filter.1 hw₁
    rw [inj_on_of_nodup_map h.writers hw₁ hmem hq] at he
    exact of_decide_eq_true he rfl
  · exact h.dropWrite

lemma Inv.claim {j : σ} (hk : s.isReserved (.slot j))
    (hu : s.publish.isSome → s.target (.slot j) = none → s.bytesOf (.slot j) = 0) :
    (s.claim (.slot j)).Inv maxBytes := by
  have hw : ∀ w ∈ s.writes, w.owner.isHandoff → w.owner ≠ .slot j := by
    rintro w _ hh he
    rw [he] at hh
    cases hh
  unfold ShmStore.claim
  cases ht : s.target (.slot j) with
  | none => exact h.unreserve hw fun hsome => hu hsome ht
  | some d =>
    obtain ⟨b, hb⟩ := isReserved_iff.1 hk
    refine h.own hb hw (bytesIn_le rfl rfl fun f _ ⟨d', hd', he⟩ => ?_)
    exact ⟨d', hd', decide_eq_true ((h.target _ d ht).2.2 f d' hd' (of_decide_eq_true he))⟩

lemma Inv.placeVersion : s.placeVersion.Inv maxBytes := by
  unfold ShmStore.placeVersion
  cases hv : s.publish with
  | none => exact h
  | some v =>
    have hu := h.publish v hv
    have hsa : s.SameRoom { s with
        place := update s.place v.dir .named, publish := none, current := some v.dir } := by
      refine ⟨rfl, rfl, rfl, rfl, fun d' hp hp' => hp ?_⟩
      have hp' : update s.place v.dir .named d' = .absent := hp'
      by_cases he : d' = v.dir
      · rw [he, update_self] at hp'
        cases hp'
      · rwa [update_of_ne he] at hp'
    refine hsa.inv h (fun w hw => hsa.writes (h.writes w hw) ?_) h.writers h.target (fun _ hr => hr)
      nofun
    have he : w.dir ≠ v.dir := fun hq =>
      h.owner_ne_version hw (by rw [← (h.writes w hw).owner, hq, hu.owner])
    intro hp
    have hp : update s.place v.dir .named w.dir = .named := hp
    rw [update_of_ne he] at hp
    exact (h.writes w hw).place.2 hp

end Names

section LetGo

variable (h : s.Inv maxBytes)
include h

lemma Inv.failPublish : Inv maxBytes { s with publish := none } := by
  have hsa : s.SameRoom { s with publish := none } := ⟨rfl, rfl, rfl, rfl, fun _ hp => hp⟩
  exact hsa.inv h (fun w hw => hsa.writes (h.writes w hw) (h.writes w hw).place.2) h.writers
    h.target (fun _ hr => hr) nofun

lemma Inv.disown (hk : ∀ v ∈ s.publish, k ∈ v.before) : (s.disown k).Inv maxBytes := by
  have hsa : s.SameRoom (s.disown k) := ⟨rfl, rfl, rfl, rfl, fun _ hp => hp⟩
  refine hsa.inv h (fun w hw => hsa.writes (h.writes w hw) (h.writes w hw).place.2) h.writers
    h.target (fun _ hr => hr) fun v hv => ?_
  have hu := h.publish v hv
  refine hsa.publishes hu hu.place.2 (fun r hr ho => ?_) le_rfl
  refine mem_filter.2 ⟨hu.owned r hr ho, decide_eq_true ?_⟩
  rintro rfl
  exact ho (hk v hv)

lemma Inv.forgetBytes (p : DirOwner σ → Bool) : (s.forgetBytes p).Inv maxBytes := by
  have hsa : s.SameRoom (s.forgetBytes p) := ⟨rfl, rfl, rfl, rfl, fun _ hp => hp⟩
  refine hsa.inv h (fun w hw => hsa.writes (h.writes w hw) (h.writes w hw).place.2) h.writers
    h.target (fun r hr => mem_of_mem_filter hr) fun v hv => ?_
  have hu := h.publish v hv
  refine hsa.publishes hu hu.place.2
    (fun r hr ho => hu.owned r (mem_of_mem_filter hr) ho) (le_of_eq ?_)
  simp only [ownedSince, ShmStore.forgetBytes, List.filter_filter]
  refine congrArg (fun l : List (DirOwner σ × Nat) => (l.map Prod.snd).sum)
    (filter_congr fun r hr => ?_)
  by_cases ho : r.1 ∈ v.before
  · simp [ho]
  · simp [ho, hu.owned r hr ho]

lemma Inv.sweep [DecidableEq δ] {held : List δ} : (s.sweep held).Inv maxBytes := by
  refine Inv.forgetBytes ?_ _
  have hl : ∀ d q, q ≠ .retiring → (if s.retires held d then .retiring else s.place d) = q →
      s.place d = q := fun d q hq he => by
    split_ifs at he
    · exact absurd he.symm hq
    · exact he
  have hsa : s.SameRoom { s with
      place := fun d => if s.retires held d then .retiring else s.place d
      target := fun k => (s.target k).filter fun d => !s.retires held d } :=
    ⟨rfl, rfl, rfl, rfl, fun d hp hp' => hp (hl d _ nofun hp')⟩
  refine hsa.inv h (fun w hw => hsa.writes (h.writes w hw) fun hp => ?_) h.writers
    (fun k d hsome => ?_) (fun _ hr => hr) fun v hv => ?_
  · exact (h.writes w hw).place.2 (hl _ _ nofun hp)
  · exact h.target k d (eq_some_of_filter_eq_some hsome)
  have hu := h.publish v hv
  refine hsa.publishes hu (fun hp => ?_) hu.owned le_rfl
  exact hu.place.2 (hl _ _ nofun hp)

end LetGo

section Runs

variable [DecidableEq F] [DecidableEq δ] {e : RoomEvent F δ σ}

omit [DecidableEq F] in
lemma walkedBytes_nil : s.walkedBytes [] = s.fs.bytesIn s.counted := by simp [walkedBytes]

omit [DecidableEq F] in
lemma Inv.takeRoom {bound : Nat} (h : s.Inv maxBytes) (hv : k ≠ .version)
    (ht : s.takeRoom maxBytes k bound [] = some s') :
    s'.Inv maxBytes ∧ (k, bound) ∈ s'.made ∧ (k, bound) ∈ s'.reserved ∧
      (∀ w ∈ s'.writes, w.owner ≠ k) ∧ ∀ f, ∀ d ∈ s'.fs.dirs f, s'.owner d ≠ k := by
  obtain ⟨hr, ht⟩ := ite_none_right_eq_some.1 ht
  cases ht
  obtain ⟨hk, hr⟩ := hr
  rw [committedBytes, walkedBytes_nil] at hr
  refine ⟨h.reserve hv hk hr, mem_cons_self, mem_cons_self, fun w hw he => ?_,
    h.placed.owner_ne hv hk⟩
  exact hk (he ▸ mem_map_of_mem (h.writes w hw).made)

lemma Inv.event (h : s.Inv maxBytes)
    (ht : ((system maxBytes).guard Orderly).step s e = some s') : s'.Inv maxBytes := by
  obtain ⟨ho, ht⟩ := (guard_step_eq_some_iff _).1 ht
  simp only [system] at ht
  cases e with try cases ht
  | reserve _ _ renamed =>
    cases (ho : renamed = [])
    exact (h.takeRoom (by rintro ⟨⟩) ht).1
  | startSlot k =>
    obtain ⟨⟨k', bound⟩, hi, ht⟩ := bind_eq_some_iff.1 ht
    have hk : k' = .slot k := by simpa using List.find?_some hi
    subst hk
    simp only [ShmStore.startWrite] at ht
    split_ifs at ht with hfree
    cases ht
    refine h.startWrite hfree.1 hfree.2 (mem_of_find?_eq_some hi) ho.1
      (fun f d' hd' hq => ?_) (by rintro ⟨⟩)
    exact ho.2 f (h.placed.here f d' hd').1 ⟨d', hd', decide_eq_true hq⟩
  | hand _ _ _ renamed =>
    cases (ho : renamed = [])
    obtain ⟨s₁, hr, ht⟩ := bind_eq_some_iff.1 ht
    obtain ⟨h₁, hm, hrs, hwr, he⟩ := h.takeRoom (by rintro ⟨⟩) hr
    simp only [ShmStore.startWrite] at ht
    split_ifs at ht with hfree
    cases ht
    exact h₁.startWrite hfree.1 hfree.2 hm hwr he fun _ => hrs
  | openFile =>
    obtain ⟨w, hw, ht⟩ := bind_eq_some_iff.1 ht
    split_ifs at ht with hf
    cases ht
    exact h.openFile hw hf
  | batch =>
    obtain ⟨w, hw, ht⟩ := bind_eq_some_iff.1 ht
    obtain ⟨f, hf, ht⟩ := bind_eq_some_iff.1 ht
    split_ifs at ht with hb
    cases ht
    exact h.batch hw hf hb (ho w hw)
  | endWrite =>
    obtain ⟨w, hw, rfl⟩ := map_eq_some_iff.1 ht
    exact h.endWrite hw
  | failWrite =>
    obtain ⟨w, hw, rfl⟩ := map_eq_some_iff.1 ht
    exact h.failWrite hw fun hsome => ho hsome w hw
  | claim =>
    simp only [step] at ht
    split_ifs at ht with hk
    cases ht
    exact h.claim hk ho
  | discard =>
    refine h.unreserve (fun w _ hh hq => ?_) ho
    rw [hq] at hh
    cases hh
  | close k | release k => exact h.disown ho
  | startPublish _ renamed =>
    cases (ho : renamed = [])
    obtain ⟨hfree, ht⟩ := ite_none_right_eq_some.1 ht
    cases ht
    rw [walkedBytes_nil]
    exact h.startPublish hfree.2
  | link =>
    obtain ⟨v, hv, ht⟩ := bind_eq_some_iff.1 ht
    split_ifs at ht with hf
    cases ht
    exact h.link hv hf
  | publishFile =>
    obtain ⟨v, hv, ht⟩ := bind_eq_some_iff.1 ht
    split_ifs at ht with hf
    cases ht
    exact h.publishFile hv hf
  | publishBatch =>
    obtain ⟨v, hv, ht⟩ := bind_eq_some_iff.1 ht
    obtain ⟨f, hf, ht⟩ := bind_eq_some_iff.1 ht
    split_ifs at ht with hr
    cases ht
    exact h.publishBatch hv hf hr
  | placeVersion => exact h.placeVersion
  | failPublish => exact h.failPublish
  | sweep => exact h.sweep
  | forget => exact h.forgetBytes _
  | remove =>
    simp only [step] at ht
    split_ifs at ht with hl
    cases ht
    exact h.unlink

omit [DecidableEq F] in
lemma Inv.start {fs : LinkedFiles F δ} (hfs : ∀ f, ∀ d ∈ fs.dirs f, f ∈ fs.files)
    (ht : fs.total ≤ maxBytes) : Inv maxBytes (ShmStore.start fs : ShmStore F δ σ) := by
  refine ⟨⟨nodup_nil, by rintro _ ⟨⟩, by rintro _ ⟨⟩, fun f d hd => ⟨hfs f d hd, ?_⟩,
    fun f d _ => .inl rfl, fun f d _ hr => by cases hr⟩, by rintro _ ⟨⟩, nodup_nil,
    by rintro _ _ ⟨⟩, by rintro _ ⟨⟩, by rintro _ ⟨⟩, by rintro _ ⟨⟩, ?_⟩
  · have hl : (ShmStore.start fs : ShmStore F δ σ).place d = .named := if_pos ⟨f, hfs f d hd, hd⟩
    rw [hl]
    rintro ⟨⟩
  · exact ht

/-- In an orderly run the files of the store's directory hold at most its bytes at every moment. -/
theorem total_le_maxBytes {fs : LinkedFiles F δ} {events : List (RoomEvent F δ σ)}
    (hfs : ∀ f, ∀ d ∈ fs.dirs f, f ∈ fs.files) (htotal : fs.total ≤ maxBytes)
    (hrun : ((system maxBytes).guard Orderly).run (start fs) events = some s) :
    s.fs.total ≤ maxBytes :=
  (run_invariant _ (I := Inv maxBytes) (fun _ _ _ h hstep => h.event hstep)
    (.start hfs htotal) hrun).total_le

/-- In an orderly run no slot or hand-off outgrows the room that is reserved for it, and all of it
is there still: the reservations fit the bound beside whatever else is counted. -/
theorem reservations_fit {fs : LinkedFiles F δ} {events : List (RoomEvent F δ σ)}
    (hfs : ∀ f, ∀ d ∈ fs.dirs f, f ∈ fs.files) (htotal : fs.total ≤ maxBytes)
    (hrun : ((system maxBytes).guard Orderly).run (start fs) events = some s) :
    (∀ r ∈ s.reserved, s.bytesOf r.1 ≤ r.2) ∧
      s.fs.bytesIn s.counted + s.reservedBytes ≤ maxBytes := by
  have h : s.Inv maxBytes := run_invariant _ (I := Inv maxBytes)
    (fun _ _ _ h hstep => h.event hstep) (.start hfs htotal) hrun
  exact ⟨h.bounds, h.room⟩

end Runs

def noFiles : LinkedFiles Nat Nat := ⟨∅, fun _ => 0, fun _ => ∅⟩

/-- A worker's result of 4 bytes is claimed while a version of 6 is written, whose file a second
version links; the result is closed and goes. -/
def filledStore : List (RoomEvent Nat Nat Nat) :=
  [.reserve 0 4 [], .startPublish 20 [], .publishFile 2, .publishBatch 6, .startSlot 0 10,
    .openFile 10 1, .batch 10 4, .endWrite 10, .claim 0, .placeVersion, .startPublish 21 [],
    .link 2, .link 1, .placeVersion, .close 0, .sweep [], .remove 10 1, .forget, .remove 20 2]

theorem total_le_filledStore : ∃ s,
    ((system 10).guard Orderly).run (start noFiles) filledStore = some s ∧
      s.fs.total = 10 ∧ s.fs.dirs 1 = {21} ∧ s.fs.dirs 2 = {21} ∧ s.ownedBytes = [] ∧
      s.fs.total ≤ 10 := by
  refine exists_run_imp _ (p := fun s => s.fs.total = 10 ∧ s.fs.dirs 1 = {21} ∧ s.fs.dirs 2 = {21} ∧
    s.ownedBytes = []) (by decide) fun s hr ⟨ht, hon, hw, ho⟩ => ?_
  exact ⟨ht, hon, hw, ho, total_le_maxBytes (by rintro _ _ ⟨⟩) (by decide) hr⟩

theorem reservations_fit_filledStore : ∃ s,
    ((system 10).guard Orderly).run (start noFiles) (filledStore.take 7) = some s ∧
      s.reservedBytes = 4 ∧ s.fs.bytesIn s.counted + s.reservedBytes ≤ 10 :=
  exists_run_and _ (by decide) fun _ hr _ =>
    (reservations_fit (by rintro _ _ ⟨⟩) (by decide) hr).2

def writtenAfterDiscard : List (RoomEvent Nat Nat Nat) :=
  [.reserve 0 10 [], .startSlot 0 10, .openFile 10 1, .discard 0, .reserve 1 10 [],
    .startSlot 1 11, .openFile 11 2, .batch 10 10, .batch 11 10]

/-- A slot with its result is discarded while a version is written: until the result is removed, the
version's room counts it not at all. -/
def discardedDuringPublish : List (RoomEvent Nat Nat Nat) :=
  [.reserve 0 10 [], .startSlot 0 10, .openFile 10 1, .batch 10 10, .endWrite 10,
    .startPublish 20 [], .publishFile 2, .discard 0, .publishBatch 10]

/-- The result of a slot that was discarded takes its name while the next slot's room is counted. -/
def renamedDuringWalk : List (RoomEvent Nat Nat Nat) :=
  [.reserve 0 10 [], .startSlot 0 10, .openFile 10 1, .batch 10 10, .discard 0, .reserve 1 10 [10],
    .startSlot 1 11, .openFile 11 2, .batch 11 10]

theorem total_overflows :
    (∃ s, (system 10).run (start noFiles) writtenAfterDiscard = some s ∧ s.fs.total = 20) ∧
      (∃ s, (system 10).run (start noFiles) discardedDuringPublish = some s ∧ s.fs.total = 20) ∧
      ∃ s, (system 10).run (start noFiles) renamedDuringWalk = some s ∧ s.fs.total = 20 :=
  ⟨exists_run_of_any _ (by decide), exists_run_of_any _ (by decide),
    exists_run_of_any _ (by decide)⟩

end ShmStore

end ThreeTears
