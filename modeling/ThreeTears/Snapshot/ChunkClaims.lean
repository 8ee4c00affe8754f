import ThreeTears.Snapshot.PointerEpochs
import ThreeTears.Snapshot.Sweeps

/-!
# What speaks for the chunks of a call

A call moves a pointer onto chunks that it put itself under its claim, that the pointer it moves
from serves, or that kept stages ahead of that pointer name. While its swap can be taken all of them
are spoken for.
-/

namespace ThreeTears

open Option List

variable {K T : Type*}

/-- What can speak for the chunks of a call: its scope's pointer and kept stages, and the chunks
that it put under its claims. -/
structure Ground (K T : Type*) where
  scope : K
  pointer : KvKey (ScopePointer K T)
  records : List (ScopeRecord K T)
  written : List (ChunkName K T)
  claims : List Nat

namespace Ground

variable (x : SnapshotSetup K T) (g : Ground K T)

/-- The pointer and the kept stages name chunks of their scope. -/
structure Scoped : Prop where
  pointer : ∀ p ∈ g.pointer.value, ∀ n ∈ x.names p, n.scope = g.scope
  records : ∀ epoch, ∀ r ∈ recordAt g.records epoch, ∀ n ∈ x.stageNames r.tables, n.scope = g.scope

def Owns (n : ChunkName K T) : Prop := n.scope = g.scope ∧ n ∈ g.written ∧ n.epoch ∈ g.claims

def Keeps (n : ChunkName K T) : Prop :=
  ∃ epoch, ∃ r ∈ recordAt g.records epoch, Ahead g.pointer.value epoch ∧ n ∈ x.stageNames r.tables

/-- The pointer names the chunk, the call owns it, or, where kept stages are used, one keeps it. -/
def Backs (kept : Bool) (n : ChunkName K T) : Prop :=
  n.scope = g.scope ∧ ((∃ p ∈ g.pointer.value, n ∈ x.names p) ∨ g.Owns n ∨ kept ∧ g.Keeps x n)

/-- A stage that was read is still kept, or the pointer has reached it. -/
def Stands (r : ScopeRecord K T) : Prop :=
  r ∈ recordAt g.records r.epoch ∨ ¬ Ahead g.pointer.value r.epoch

def effect : PublishEffect K T → Ground K T
  | .quiet => g
  | .claim epoch => { g with claims := epoch :: g.claims, written := [] }
  | .release => { g with claims := [] }
  | .put name => { g with written := name :: g.written }
  | .move kv => { g with pointer := kv }
  | .keep record => { g with records := SnapshotRun.kept g.records record }
  | .drop epoch => { g with records := g.records.filter (·.epoch ≠ epoch) }

end Ground

/-- A base that is carried is the pointer that the swap names. -/
def ScopeWrite.BaseKnown (g : Ground K T) (w : ScopeWrite K T) : Prop :=
  ∀ base ∈ w.base, ∃ r, w.moveFrom = some (some r) ∧ g.pointer.HeldAt r base

def StagedJob.Owned (x : SnapshotSetup K T) (g : Ground K T) (job : StagedJob K T) : Prop :=
  job.stage.epoch ∈ g.claims ∧ (∀ n ∈ x.stageNames job.stage.tables, g.Owns n) ∧
    ∀ p ∈ job.filled, ∀ n ∈ x.names p, g.Owns n

namespace OnLost

def usesKept : OnLost K T → Bool
  | .again _ _ | .carry _ _ _ => true
  | _ => false

/-- What a call that would move the pointer to `p` goes on with. -/
def Backed (x : SnapshotSetup K T) (g : Ground K T) (p : ScopePointer K T) : OnLost K T → Prop
  | .retry _ => ∀ n ∈ x.names p, g.Owns n
  | .ends => True
  | .again job _ => job.Owned x g
  | .carry _ left _ => ∀ r ∈ left, g.Stands r

end OnLost

namespace PublishPc

def usesKept : PublishPc K T → Bool
  | .getting _ _ _ | .completing _ _ _ _ | .carrying _ _ _ | .dropping _ _ _ _ _ _ | .dead (some _)
    => true
  | .confirming _ _ _ onLost | .swapping _ _ onLost => onLost.usesKept
  | _ => false

/-- Every chunk that the call would move its pointer onto is spoken for. -/
def Backed (x : SnapshotSetup K T) (g : Ground K T) : PublishPc K T → Prop
  | .readingL3 _ | .publishing _ | .adding _ _ _ | .folding | .releasing | .ended
  | .claimingStage _ _ | .startingCarry | .listing (.carry _) | .discarding _ | .dead none => True
  | .claiming w => w.BaseKnown g
  | .writing w done => w.BaseKnown g ∧ w.epoch ∈ g.claims ∧ ∀ t, ∀ w ∈ done t, g.Owns w.name
  | .confirming p _ moveFrom onLost =>
    (∀ revision ∈ moveFrom, g.pointer.Fresh revision → ∀ n ∈ x.names p, g.Backs x onLost.usesKept
      n) ∧
      (moveFrom = none → ∀ n ∈ x.names p, g.Owns n) ∧ onLost.Backed x g p
  | .moving p _ => ∀ n ∈ x.names p, g.Owns n
  | .swapping p revision onLost =>
    (g.pointer.Fresh revision → ∀ n ∈ x.names p, g.Backs x onLost.usesKept n) ∧ onLost.Backed x g p
  | .staging epoch _ done => epoch ∈ g.claims ∧ ∀ t, ∀ w ∈ done t, g.Owns w.name
  | .staged stage => stage.epoch ∈ g.claims ∧ ∀ n ∈ x.stageNames stage.tables, g.Owns n
  | .checking job _ | .trying job _ | .listing (.stage job _ _ _) | .keeping job _ _
  | .filling job _ _ => job.Owned x g
  | .getting (.stage job _ _ _) _ got => job.Owned x g ∧ ∀ r ∈ got, g.Stands r
  | .getting (.carry _) _ got => ∀ r ∈ got, g.Stands r
  | .completing job _ _ got => job.Owned x g ∧ ∀ r ∈ got, g.Stands r
  | .resting job _ _ _ done => job.Owned x g ∧ ∀ t, ∀ w ∈ done t, g.Owns w.name
  | .carrying _ left _ => ∀ r ∈ left, g.Stands r
  | .dropping reached _ _ _ left _ =>
    (∀ r ∈ reached, ¬ Ahead g.pointer.value r.epoch) ∧ ∀ r ∈ left, g.Stands r
  | .dead (some (p, revision)) => g.pointer.Fresh revision → ∀ n ∈ x.names p, g.Backs x true n

end PublishPc

variable {x : SnapshotSetup K T} {g g' : Ground K T}

namespace Ground

/-- What the others do: the pointer moves forward, and a stage ahead of it is dropped only for a
call that goes by none. -/
structure Grows (g g' : Ground K T) (kept : Bool) : Prop where
  scope : g'.scope = g.scope
  pointer : g.pointer.Stands g'.pointer
  forward : ∀ epoch, Ahead g'.pointer.value epoch → Ahead g.pointer.value epoch
  written : ∀ n ∈ g.written, n ∈ g'.written
  claims : ∀ epoch ∈ g.claims, epoch ∈ g'.claims
  records : ∀ epoch, ∀ r ∈ recordAt g.records epoch,
    r ∈ recordAt g'.records epoch ∨ ¬ Ahead g.pointer.value epoch ∨ kept = false

variable {kept : Bool}

lemma Owns.mono {n : ChunkName K T} (h : g.Owns n) (hg : g.Grows g' kept) : g'.Owns n :=
  ⟨h.1.trans hg.scope.symm, hg.written n h.2.1, hg.claims _ h.2.2⟩

lemma Stands.mono {r : ScopeRecord K T} (h : g.Stands r) (hg : g.Grows g' true) : g'.Stands r := by
  obtain hr | he := h
  · obtain hr' | he | hk := hg.records _ r hr
    · exact .inl hr'
    · exact .inr fun hh => he (hg.forward _ hh)
    · cases hk
  · exact .inr fun hh => he (hg.forward _ hh)

lemma Backs.mono {n : ChunkName K T} (h : g.Backs x kept n) (hg : g.Grows g' kept)
    (hva : g'.pointer.value = g.pointer.value) : g'.Backs x kept n := by
  refine ⟨h.1.trans hg.scope.symm, ?_⟩
  obtain he | ho | ⟨hk, epoch, r, hr, hh, hna⟩ := h.2
  · rw [hva]
    exact .inl he
  · exact .inr (.inl (ho.mono hg))
  obtain hr' | hre | hno := hg.records _ r hr
  · refine .inr (.inr ⟨hk, epoch, r, hr', ?_, hna⟩)
    rw [hva]
    exact hh
  · exact absurd hh hre
  rw [hk] at hno
  cases hno

lemma fresh_backs_mono {p : ScopePointer K T} {rev : Option Nat}
    (h : g.pointer.Fresh rev → ∀ n ∈ x.names p, g.Backs x kept n) (hg : g.Grows g' kept)
    (hrev : ∀ r ∈ rev, r ≤ g.pointer.sequence) :
    g'.pointer.Fresh rev → ∀ n ∈ x.names p, g'.Backs x kept n := by
  intro hr n hn
  obtain ⟨hr, hva⟩ := hg.pointer.2 rev hrev hr
  exact (h hr n hn).mono hg hva

end Ground

lemma NotPast.le {kv : KvKey (ScopePointer K T)} {rev : Option Nat} {epoch : Nat}
    (h : NotPast kv rev epoch) : ∀ r ∈ rev, r ≤ kv.sequence := fun r hr => (h r hr).le

lemma ScopeWrite.BaseKnown.mono {w : ScopeWrite K T} (h : w.BaseKnown g)
    (ho : g.pointer.Stands g'.pointer) : w.BaseKnown g' := by
  intro base hb
  obtain ⟨r, hr, hk⟩ := h base hb
  exact ⟨r, hr, hk.stands ho⟩

lemma StagedJob.Owned.mono {job : StagedJob K T} {kept : Bool} (h : job.Owned x g)
    (hg : g.Grows g' kept) : job.Owned x g' :=
  ⟨hg.claims _ h.1, fun n hn => (h.2.1 n hn).mono hg, fun p hp n hn => (h.2.2 p hp n hn).mono hg⟩

lemma OnLost.Backed.mono {onLost : OnLost K T} {p : ScopePointer K T} (h : onLost.Backed x g p)
    (hg : g.Grows g' onLost.usesKept) : onLost.Backed x g' p := by
  cases onLost with
  | retry => exact fun n hn => (h n hn).mono hg
  | ends => trivial
  | again => exact StagedJob.Owned.mono h hg
  | carry => exact fun r hr => (h r hr).mono hg

lemma PublishPc.Backed.mono {pc : PublishPc K T} {bound : Nat} (h : pc.Backed x g)
    (hsn : pc.Sound bound g.pointer) (hg : g.Grows g' pc.usesKept) : pc.Backed x g' := by
  cases pc with
  | readingL3 | publishing | adding | folding | releasing | ended | claimingStage | startingCarry
  | discarding => trivial
  | claiming => exact ScopeWrite.BaseKnown.mono h hg.pointer
  | writing w =>
    exact ⟨h.1.mono hg.pointer, hg.claims _ h.2.1, fun t w hw => (h.2.2 t w hw).mono hg⟩
  | confirming =>
    refine ⟨fun rev hr => ?_, fun hnone n hn => (h.2.1 hnone n hn).mono hg, h.2.2.mono hg⟩
    exact Ground.fresh_backs_mono (h.1 rev hr) hg (hsn.2.1 rev hr).le
  | moving => exact fun n hn => (h n hn).mono hg
  | swapping => exact ⟨Ground.fresh_backs_mono h.1 hg hsn.2.1.le, h.2.mono hg⟩
  | staging => exact ⟨hg.claims _ h.1, fun t w hw => (h.2 t w hw).mono hg⟩
  | staged => exact ⟨hg.claims _ h.1, fun n hn => (h.2 n hn).mono hg⟩
  | checking | trying | keeping | filling => exact StagedJob.Owned.mono h hg
  | listing use =>
    cases use with
    | stage => exact StagedJob.Owned.mono h hg
    | carry => trivial
  | getting use =>
    cases use with
    | stage => exact ⟨h.1.mono hg, fun r hr => (h.2 r hr).mono hg⟩
    | carry => exact fun r hr => (h r hr).mono hg
  | completing => exact ⟨h.1.mono hg, fun r hr => (h.2 r hr).mono hg⟩
  | resting =>
    exact ⟨h.1.mono hg, fun t w hw => (h.2 t w hw).mono hg⟩
  | carrying => exact fun r hr => (h r hr).mono hg
  | dropping =>
    exact ⟨fun r hr hh => h.1 r hr (hg.forward _ hh), fun r hr => (h.2 r hr).mono hg⟩
  | dead req =>
    cases req with
    | none => trivial
    | some => exact Ground.fresh_backs_mono h hg hsn.2.le

/-! ### The chunks of a pointer that is made -/

namespace SnapshotSetup

variable {p q : ScopePointer K T} {n : ChunkName K T}

lemma mem_names_iff : n ∈ x.names p ↔ ∃ t, n ∈ (p.tables t).names := by simp [names, x.complete]

lemma mem_stageNames_iff {tab : T → Option (ScopeChunk K T)} :
    n ∈ x.stageNames tab ↔ ∃ t, ∃ w ∈ tab t, w.name = n := by
  simp [stageNames, x.complete]

variable [Fintype T]

lemma mem_names_assembled {w : ScopeWrite K T} {done : T → Option (ScopeChunk K T)}
    (h : w.assembled done = some p) (hn : n ∈ x.names p) :
    (∃ base ∈ w.base, n ∈ x.names base) ∨ ∃ t, ∃ ch ∈ done t, ch.name = n := by
  obtain ⟨t, hn⟩ := mem_names_iff.1 hn
  have hchain := (Pointer.chains_of_ofChains h).2 t
  unfold ScopeWrite.chain at hchain
  cases hk : w.kinds t with rw [hk] at hchain
  | carry =>
    obtain ⟨base, hb, he⟩ := map_eq_some_iff.1 hchain
    exact .inl ⟨base, hb, mem_names_iff.2 ⟨t, he ▸ hn⟩⟩
  | piece =>
    obtain ⟨base, hb, hchain⟩ := bind_eq_some_iff.1 hchain
    obtain ⟨ch, hc, he⟩ := map_eq_some_iff.1 hchain
    rw [← he, Chain.names_append, mem_append, mem_singleton] at hn
    obtain hn | rfl := hn
    · exact .inl ⟨base, hb, mem_names_iff.2 ⟨t, hn⟩⟩
    · exact .inr ⟨t, ch, hc, rfl⟩
  | whole =>
    obtain ⟨ch, hc, he⟩ := map_eq_some_iff.1 hchain
    rw [← he, Chain.names_whole, mem_singleton] at hn
    exact .inr ⟨t, ch, hc, hn.symm⟩

/-- A pointer made of a stage names the stage's chunks, and those put for the tables that it left
out. -/
lemma mem_names_ofChains {stage : StagedScope T (ChunkName K T)} {epoch : Nat}
    {keeps : ScopeChunk K T → Bool} {rest : T → Option (ScopeChunk K T)}
    (h : Pointer.ofChains epoch (stage.chain keeps rest) = some p) (hn : n ∈ x.names p) :
    n ∈ x.stageNames stage.tables ∨ ∃ t, ∃ ch ∈ rest t, ch.name = n := by
  obtain ⟨t, hn⟩ := mem_names_iff.1 hn
  have hchain := (Pointer.chains_of_ofChains h).2 t
  have hr : (rest t).map Chain.whole = some (p.tables t) → ∃ ch ∈ rest t, ch.name = n := by
    intro hm
    obtain ⟨ch, hc, he⟩ := map_eq_some_iff.1 hm
    rw [← he, Chain.names_whole, mem_singleton] at hn
    exact ⟨ch, hc, hn.symm⟩
  unfold StagedScope.chain at hchain
  cases ht : stage.tables t with rw [ht] at hchain
  | none => exact .inr ⟨t, hr hchain⟩
  | some w =>
    simp only at hchain
    split_ifs at hchain
    · rw [← Option.some.inj hchain, Chain.names_whole, mem_singleton] at hn
      exact .inl (mem_stageNames_iff.2 ⟨t, w, ht, hn.symm⟩)
    · exact .inr ⟨t, hr hchain⟩

lemma mem_names_rested {job : StagedJob K T} {fil : Bool} {done : T → Option (ScopeChunk K T)}
    (h : job.rested fil done = some p) (hn : n ∈ x.names p) :
    n ∈ x.stageNames job.stage.tables ∨ ∃ t, ∃ ch ∈ done t, ch.name = n := by
  unfold StagedJob.rested at h
  split_ifs at h
  · exact mem_names_ofChains h hn
  apply (mem_names_ofChains h hn).imp_right
  rintro ⟨t, ch, hc, rfl⟩
  obtain ⟨ch', hc', rfl⟩ := map_eq_some_iff.1 hc
  exact ⟨t, ch', hc', rfl⟩

lemma mem_names_onto {r : ScopeRecord K T} (h : p.onto r = some q) (hn : n ∈ x.names q) :
    n ∈ x.names p ∨ n ∈ x.stageNames r.tables := by
  unfold Pointer.onto at h
  split_ifs at h
  cases h
  obtain ⟨t, hn⟩ := mem_names_iff.1 hn
  cases ht : r.tables t with simp only [ht] at hn
  | none => exact .inl (mem_names_iff.2 ⟨t, hn⟩)
  | some w =>
    have hna : w.name = n → n ∈ x.stageNames r.tables := fun hna =>
      mem_stageNames_iff.2 ⟨t, w, ht, hna⟩
    split_ifs at hn
    · rw [Chain.names_append, mem_append, mem_singleton] at hn
      obtain hn | hn := hn
      · exact .inl (mem_names_iff.2 ⟨t, hn⟩)
      · exact .inr (hna hn.symm)
    rw [Chain.names_whole, mem_singleton] at hn
    exact .inr (hna hn.symm)

lemma mem_names_chained {kept : List (ScopeRecord K T)} {upto : Option Nat}
    (hn : n ∈ x.names (p.chained kept upto)) :
    n ∈ x.names p ∨ ∃ r ∈ kept, p.epoch < r.epoch ∧ n ∈ x.stageNames r.tables := by
  have h : p.epoch ≤ (p.chained kept upto).epoch ∧ ∀ n ∈ x.names (p.chained kept upto),
      n ∈ x.names p ∨ ∃ r ∈ kept, p.epoch < r.epoch ∧ n ∈ x.stageNames r.tables := by
    refine Pointer.chained_induction (I := fun q => p.epoch ≤ q.epoch ∧ ∀ n ∈ x.names q,
      n ∈ x.names p ∨ ∃ r ∈ kept, p.epoch < r.epoch ∧ n ∈ x.stageNames r.tables)
      (fun q q' h ht => ?_) ⟨le_rfl, fun n hn => .inl hn⟩
    obtain ⟨r, hr, hlt, -, ho⟩ := Pointer.exists_onto_of_chainStep ht
    refine ⟨h.1.trans (Pointer.epoch_lt_of_chainStep ht).le, fun n hn => ?_⟩
    obtain hn | hn := mem_names_onto ho hn
    · exact h.2 n hn
    · exact .inr ⟨r, hr, h.1.trans_lt hlt, hn⟩
  exact h.2 n hn

lemma mem_names_completed {own : ScopeRecord K T} {kept : List (ScopeRecord K T)}
    (h : Pointer.completed own (some p) kept none = some q) (hn : n ∈ x.names q) :
    n ∈ x.names p ∨ n ∈ x.stageNames own.tables ∨
      ∃ r ∈ kept, p.epoch < r.epoch ∧ n ∈ x.stageNames r.tables := by
  simp only [Pointer.completed] at h
  split_ifs at h with hlt hbehind hb hb
  · obtain hn | hn := mem_names_onto h hn
    · exact (mem_names_chained hn).imp_right .inr
    · exact .inr (.inl hn)
  obtain hn | hn := mem_names_onto h hn
  · exact .inl hn
  · exact .inr (.inl hn)

end SnapshotSetup

end ThreeTears
