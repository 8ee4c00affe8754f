import ThreeTears.Snapshot.SnapshotRuns

/-!
# What a sweep spares

A chunk is spoken for while its scope's pointer names it, while a kept stage ahead of the pointer
does, or while the call that put it holds its claim. A sweep that has read the claims spares it as
long as no call puts a chunk that it may already have condemned, and no stage is dropped between its
reads of the pointer and of the stage.
-/

namespace ThreeTears

open List

variable {K T D ι ρ κ ς : Type*}

def Ahead (held : Option (ScopePointer K T)) (epoch : Nat) : Prop := ∀ p ∈ held, p.epoch < epoch
deriving Decidable

def recordAt (records : List (ScopeRecord K T)) (epoch : Nat) : Option (ScopeRecord K T) :=
  records.find? (·.epoch = epoch)

namespace SweepPc

variable [DecidableEq K] [DecidableEq T]

-- named, so that `∈` is decided by one term in every module
local instance lawful : LawfulBEq (ChunkName K T) := inferInstance

/-- The sweep may have condemned the chunk: it has read the claims, and none was on its epoch. -/
def Threatens (n : ChunkName K T) : SweepPc K T → Prop
  | .idle | .listed _ => False
  | .pointing names claimed _ _ | .getting names claimed _ _ _ => n ∈ names ∧ n.epoch ∉ claimed
  | .deleting stale => n ∈ stale

instance (n) (pc : SweepPc K T) : Decidable (pc.Threatens n) := by
  cases pc <;> dsimp only [SweepPc.Threatens] <;> infer_instance

/-- The sweep has found the scope's pointer behind the epoch, and has not read the stage kept for it
yet. -/
def Awaits (k : K) (epoch : Nat) : SweepPc K T → Prop
  | .pointing _ _ _ seen => ∃ held ∈ Dict.lookup k seen, Ahead held epoch
  | .getting _ _ seen keys _ => (k, epoch) ∈ keys ∧ Ahead (Dict.lookup k seen).join epoch
  | _ => False

instance (k epoch) (pc : SweepPc K T) : Decidable (pc.Awaits k epoch) := by
  cases pc <;> dsimp only [SweepPc.Awaits] <;> infer_instance

end SweepPc

namespace SnapshotRun

variable [LinearOrder K] [DecidableEq T]

def Served (x : SnapshotSetup K T) (s : SnapshotRun K T D ι ρ κ ς) (n : ChunkName K T) : Prop :=
  ∃ p ∈ (s.pointers n.scope).value, n ∈ x.names p

/-- A kept stage of the scope that is ahead of `held` names the chunk. -/
def Kept (x : SnapshotSetup K T) (s : SnapshotRun K T D ι ρ κ ς) (held : Option (ScopePointer K T))
    (n : ChunkName K T) : Prop :=
  ∃ epoch, ∃ r ∈ recordAt (s.records n.scope) epoch,
    Ahead held epoch ∧ n ∈ x.stageNames r.tables

def Spoken (x : SnapshotSetup K T) (s : SnapshotRun K T D ι ρ κ ς) (n : ChunkName K T) : Prop :=
  s.Served x n ∨ s.Kept x (s.pointers n.scope).value n

/-- The call has put the chunk and holds a claim on its epoch. -/
def Owns (s : SnapshotRun K T D ι ρ κ ς) (c : κ) (n : ChunkName K T) : Prop :=
  n ∈ s.written c ∧ (c, n.epoch) ∈ s.claims

def Live (x : SnapshotSetup K T) (s : SnapshotRun K T D ι ρ κ ς) (n : ChunkName K T) : Prop :=
  s.Spoken x n ∨ ∃ c, s.Owns c n

end SnapshotRun

namespace SnapshotSetup

variable [DecidableEq K] {x : SnapshotSetup K T} {seen : List (K × Option (ScopePointer K T))}
  {got : List (K × ScopeRecord K T)} {k : K} {n : ChunkName K T}

lemma mem_served_iff : n ∈ x.served seen got k ↔ (∃ p ∈ (Dict.lookup k seen).join, n ∈ x.names p) ∨
      ∃ r ∈ got, r.1 = k ∧ Ahead (Dict.lookup k seen).join r.2.epoch ∧
        n ∈ x.stageNames r.2.tables := by
  simp only [served, mem_append, mem_flatMap]
  refine or_congr ?_ (exists_congr fun r => and_congr_right fun _ => ?_)
  · cases (Dict.lookup k seen).join <;> simp
  · simp only [mem_ite_nil_right, Ahead, and_assoc]

lemma mem_served_append (r : List (K × ScopeRecord K T)) (h : n ∈ x.served seen got k) :
    n ∈ x.served seen (got ++ r) k := by
  rw [mem_served_iff] at h ⊢
  apply h.imp_right
  rintro ⟨r', hr', h⟩
  exact ⟨r', mem_append_left _ hr', h⟩

end SnapshotSetup

lemma mem_of_recordAt {records : List (ScopeRecord K T)} {epoch : Nat} {r : ScopeRecord K T}
    (h : r ∈ recordAt records epoch) : r ∈ records ∧ r.epoch = epoch := by
  have hi : records.find? (·.epoch = epoch) = some r := h
  exact ⟨mem_of_find?_eq_some hi, by simpa using List.find?_some hi⟩

section Records

variable {records : List (ScopeRecord K T)} {record r : ScopeRecord K T} {epoch epoch' : Nat}

lemma recordAt_drop (h : epoch' ≠ epoch) :
    recordAt (records.filter (·.epoch ≠ epoch)) epoch' = recordAt records epoch' := by
  simp only [recordAt, List.find?_filter]
  congr 1
  funext r
  by_cases hr : r.epoch = epoch'
  · simp [hr, h]
  · simp [hr]

lemma mem_recordAt_of_drop (h : r ∈ recordAt (records.filter (·.epoch ≠ epoch)) epoch') :
    r ∈ recordAt records epoch' := by
  by_cases he : epoch' = epoch
  · obtain ⟨hmem, hq⟩ := mem_of_recordAt h
    have hne : r.epoch ≠ epoch := by simpa using (mem_filter.1 hmem).2
    exact absurd (hq.trans he) hne
  · rwa [recordAt_drop he] at h

lemma mem_recordAt_kept (h : r ∈ recordAt records epoch) :
    r ∈ recordAt (SnapshotRun.kept records record) epoch := by
  unfold SnapshotRun.kept
  split_ifs
  · exact h
  have hi : records.find? (·.epoch = epoch) = some r := h
  simp [recordAt, List.find?_append, hi]

lemma mem_recordAt_of_kept (h : r ∈ recordAt (SnapshotRun.kept records record) epoch) :
    r ∈ recordAt records epoch ∨ r = record := by
  unfold SnapshotRun.kept at h
  split_ifs at h
  · exact .inl h
  simp only [recordAt, List.find?_append, Option.mem_def, Option.or_eq_some_iff] at h
  obtain h | ⟨-, h⟩ := h
  · exact .inl h
  · exact .inr (mem_singleton.1 (mem_of_find?_eq_some h))

end Records

namespace SweepPc

variable [LinearOrder K]

def Spares (x : SnapshotSetup K T) (s : SnapshotRun K T D ι ρ κ ς) : SweepPc K T → Prop
  | .idle | .listed _ => True
  | .pointing names claimed todo seen => ∀ n ∈ names, n.epoch ∉ claimed →
    (∀ c, ¬ s.Owns c n) ∧ (s.Spoken x n → n.scope ∈ todo ∨
      ∃ held ∈ Dict.lookup n.scope seen, (∃ p ∈ held, n ∈ x.names p) ∨ s.Kept x held n)
  | .getting names claimed seen keys got => ∀ n ∈ names, n.epoch ∉ claimed →
    (∀ c, ¬ s.Owns c n) ∧ (s.Spoken x n → n ∈ x.served seen got n.scope ∨
      ∃ epoch, (n.scope, epoch) ∈ keys ∧ ∃ r ∈ recordAt (s.records n.scope) epoch,
        Ahead (Dict.lookup n.scope seen).join epoch ∧ n ∈ x.stageNames r.tables)
  | .deleting stale => ∀ n ∈ stale, ¬ s.Live x n

variable {x : SnapshotSetup K T} {s s' : SnapshotRun K T D ι ρ κ ς} {pc pc' : SweepPc K T}

lemma Spares.mono (h : pc.Spares x s)
    (ho : ∀ c n, s'.Owns c n → (∃ c, s.Owns c n) ∨ ¬ pc.Threatens n)
    (hsp : ∀ n, s'.Spoken x n → s.Live x n) (he : ∀ k epoch, ∀ r ∈ recordAt (s.records k) epoch,
      r ∈ recordAt (s'.records k) epoch ∨ ¬ pc.Awaits k epoch) : pc.Spares x s' := by
  have hu' : ∀ n, pc.Threatens n → (∀ c, ¬ s.Owns c n) → ∀ c, ¬ s'.Owns c n := by
    rintro n hn hfree c hc
    obtain ⟨c', hc'⟩ | hsa := ho c n hc
    · exact hfree c' hc'
    · exact hsa hn
  cases pc with
  | idle | listed => trivial
  | pointing =>
    intro n hn hl
    obtain ⟨hfree, hi⟩ := h n hn hl
    refine ⟨hu' n ⟨hn, hl⟩ hfree, fun hn' => ?_⟩
    obtain hn' | ⟨c, hc⟩ := hsp n hn'
    · apply (hi hn').imp_right
      rintro ⟨held, hheld, hp | ⟨epoch, r, hr, hh, hna⟩⟩
      · exact ⟨held, hheld, .inl hp⟩
      obtain hr' | hw := he _ _ r hr
      · exact ⟨held, hheld, .inr ⟨epoch, r, hr', hh, hna⟩⟩
      · exact absurd ⟨held, hheld, hh⟩ hw
    · exact absurd hc (hfree c)
  | getting =>
    intro n hn hl
    obtain ⟨hfree, hi⟩ := h n hn hl
    refine ⟨hu' n ⟨hn, hl⟩ hfree, fun hn' => ?_⟩
    obtain hn' | ⟨c, hc⟩ := hsp n hn'
    · apply (hi hn').imp_right
      rintro ⟨epoch, hkey, r, hr, hh, hna⟩
      obtain hr' | hw := he _ _ r hr
      · exact ⟨epoch, hkey, r, hr', hh, hna⟩
      · exact absurd ⟨hkey, hh⟩ hw
    · exact absurd hc (hfree c)
  | deleting =>
    rintro n hn (hn' | ⟨c, hc⟩)
    · exact h n hn (hsp n hn')
    obtain hc' | hsa := ho c n hc
    · exact h n hn (.inr hc')
    · exact hsa hn

variable [DecidableEq T]

lemma Spares.look (h : pc.Spares x s) (hlook : s.look x pc = some pc') : pc'.Spares x s := by
  cases pc with try cases hlook
  | listed =>
    intro n hn hl
    refine ⟨fun c hc => hl (List.mem_map.2 ⟨_, hc.2, rfl⟩), fun _ => .inl ?_⟩
    exact mem_dedup.2 (List.mem_map.2 ⟨n, hn, rfl⟩)
  | pointing _ _ todo seen =>
    cases todo with try cases hlook
    | cons k =>
      intro n hn hl
      obtain ⟨hfree, hsa⟩ := h n hn hl
      refine ⟨hfree, fun hsp => ?_⟩
      obtain rfl | hk := eq_or_ne n.scope k
      · exact .inr ⟨_, by simp [Dict.lookup], hsp⟩
      refine (hsa hsp).imp (fun hmem => ?_) ?_
      · exact (mem_cons.1 hmem).resolve_left hk
      rintro ⟨held, hheld, hsa⟩
      exact ⟨held, by simpa [Dict.lookup, Ne.symm hk] using hheld, hsa⟩
    | nil =>
      intro n hn hl
      obtain ⟨hfree, hsa⟩ := h n hn hl
      refine ⟨hfree, fun hsp => ?_⟩
      obtain ⟨held, hheld, hsa⟩ := (hsa hsp).resolve_left not_mem_nil
      have ho : (Dict.lookup n.scope seen).join = held := by rw [hheld, Option.join_some]
      refine hsa.imp (fun hp => ?_) ?_
      · rw [SnapshotSetup.mem_served_iff, ho]
        exact .inl hp
      rintro ⟨epoch, r, hr, hh, hna⟩
      refine ⟨epoch, ?_, r, hr, ho ▸ hh, hna⟩
      obtain ⟨hmem, hep⟩ := mem_of_recordAt hr
      refine mem_flatMap.2 ⟨n.scope, ?_, List.mem_map.2 ⟨r, hmem, by rw [hep]⟩⟩
      by_contra hnone
      rw [Dict.lookup_eq_none hnone] at hheld
      cases hheld
  | getting _ _ _ keys =>
    cases keys with try cases hlook
    | cons =>
      intro n hn hl
      obtain ⟨hfree, hsa⟩ := h n hn hl
      refine ⟨hfree, fun hsp => ?_⟩
      obtain he | ⟨epoch, hkey, r, hr, hh, hna⟩ := hsa hsp
      · exact .inl (SnapshotSetup.mem_served_append _ he)
      obtain rfl | hkey := mem_cons.1 hkey
      · refine .inl (SnapshotSetup.mem_served_iff.2 (.inr ⟨(n.scope, r), ?_, rfl, ?_, hna⟩))
        · have hi : (s.records n.scope).find? (·.epoch = epoch) = some r := hr
          simp [hi]
        rw [(mem_of_recordAt hr).2]
        exact hh
      · exact .inr ⟨epoch, hkey, r, hr, hh, hna⟩
    | nil =>
      intro n hn
      obtain ⟨hn, hd⟩ := mem_filter.1 hn
      obtain ⟨he, hl⟩ := of_decide_eq_true hd
      obtain ⟨hfree, hsa⟩ := h n hn hl
      rintro (hsp | ⟨c, hc⟩)
      · obtain hmem | ⟨epoch, hkey, -⟩ := hsa hsp
        · exact he hmem
        · exact absurd hkey not_mem_nil
      · exact hfree c hc

end SweepPc

end ThreeTears
