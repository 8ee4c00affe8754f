import ThreeTears.Snapshot.SnapshotRuns

/-!
# A pointer is never ahead of L3, and never goes back

A call that will move a pointer to an epoch knows that L3 holds the epoch, and that the entry it
swaps against is not past it. Both outlast whatever the others do.
-/

namespace ThreeTears

open Option Pointer

variable {K T D ι ρ κ ς : Type*}

/-- The entry at this revision is not past the epoch; there is none to be past it at `none`. -/
def NotPast (kv : KvKey (ScopePointer K T)) (revision : Option Nat) (epoch : Nat) : Prop :=
  ∀ r ∈ revision, kv.KnownAt r fun p => p.epoch ≤ epoch

def StagedJob.Committed (bound : Nat) (job : StagedJob K T) : Prop :=
  job.stage.epoch ≤ bound ∧ ∀ p ∈ job.filled, p.epoch = job.stage.epoch

/-- A call that would move a pointer to the epoch goes on with this. -/
def OnLost.Committed (bound epoch : Nat) : OnLost K T → Prop
  | .retry _ | .ends => True
  | .again job _ => job.Committed bound ∧ epoch = job.stage.epoch
  | .carry upto _ _ => upto ≤ bound

/-- The pointer that was read, and the stage that it is behind. -/
def KeptFor.Sound (bound : Nat) (kv : KvKey (ScopePointer K T)) : KeptFor K T → Prop
  | .stage job _ p revision =>
    job.Committed bound ∧ p.epoch < job.stage.epoch ∧ kv.HeldAt revision p
  | .carry upto => upto ≤ bound

/-- What a call knows, its scope at epoch `bound` in L3 and at the pointer entry `kv`. -/
def PublishPc.Sound (bound : Nat) (kv : KvKey (ScopePointer K T)) : PublishPc K T → Prop
  | .readingL3 _ | .folding | .releasing | .ended | .claimingStage _ _ | .staging _ _ _ | .staged _
  | .startingCarry | .discarding _ | .dead none => True
  | .publishing epoch | .adding epoch _ _ => epoch ≤ bound
  | .claiming w | .writing w _ =>
    w.epoch ≤ bound ∧ ∀ revision ∈ w.moveFrom, NotPast kv revision w.epoch
  | .confirming p _ moveFrom onLost =>
    p.epoch ≤ bound ∧ (∀ revision ∈ moveFrom, NotPast kv revision p.epoch) ∧
      onLost.Committed bound p.epoch
  | .moving p _ => p.epoch ≤ bound
  | .swapping p revision onLost =>
    p.epoch ≤ bound ∧ NotPast kv revision p.epoch ∧ onLost.Committed bound p.epoch
  | .checking job _ | .trying job _ => job.Committed bound
  | .listing use | .getting use _ _ => use.Sound bound kv
  | .completing job _ entry _ =>
    job.Committed bound ∧ ∀ e ∈ entry, e.1.epoch < job.stage.epoch ∧ kv.HeldAt e.2 e.1
  | .keeping job _ revision | .filling job _ revision | .resting job _ revision _ _ =>
    job.Committed bound ∧ NotPast kv revision job.stage.epoch
  | .carrying upto _ _ => upto ≤ bound
  | .dropping _ p revision upto _ _ => upto ≤ bound ∧ kv.HeldAt revision p
  | .dead (some (p, revision)) => p.epoch ≤ bound ∧ NotPast kv revision p.epoch

section Keeps

variable {bound bound' : Nat} {kv kv' : KvKey (ScopePointer K T)}

lemma NotPast.stands {rev : Option Nat} {epoch : Nat} (h : NotPast kv rev epoch)
    (hk : kv.Stands kv') : NotPast kv' rev epoch := fun r hr => (h r hr).stands hk

lemma StagedJob.Committed.mono {job : StagedJob K T} (h : job.Committed bound)
    (hle : bound ≤ bound') : job.Committed bound' := ⟨h.1.trans hle, h.2⟩

lemma OnLost.Committed.mono {onLost : OnLost K T} {epoch : Nat} (h : onLost.Committed bound epoch)
    (hle : bound ≤ bound') : onLost.Committed bound' epoch := by
  cases onLost with
  | retry | ends => trivial
  | again => exact ⟨h.1.mono hle, h.2⟩
  | carry => exact le_trans h hle

lemma KeptFor.Sound.mono {use : KeptFor K T} (h : use.Sound bound kv) (hle : bound ≤ bound')
    (hk : kv.Stands kv') : use.Sound bound' kv' := by
  cases use with
  | stage => exact ⟨h.1.mono hle, h.2.1, h.2.2.stands hk⟩
  | carry => exact le_trans h hle

lemma PublishPc.Sound.mono {pc : PublishPc K T} (h : pc.Sound bound kv) (hle : bound ≤ bound')
    (hk : kv.Stands kv') : pc.Sound bound' kv' := by
  cases pc with
  | readingL3 | folding | releasing | ended | claimingStage | staging | staged | startingCarry
  | discarding => trivial
  | publishing | adding | moving | carrying => exact le_trans h hle
  | claiming w | writing w done =>
    exact ⟨h.1.trans hle, fun rev hr => (h.2 rev hr).stands hk⟩
  | confirming =>
    exact ⟨h.1.trans hle, fun rev hr => (h.2.1 rev hr).stands hk, h.2.2.mono hle⟩
  | swapping => exact ⟨h.1.trans hle, h.2.1.stands hk, h.2.2.mono hle⟩
  | checking | trying => exact StagedJob.Committed.mono h hle
  | listing | getting => exact KeptFor.Sound.mono h hle hk
  | completing =>
    exact ⟨h.1.mono hle, fun e he => ⟨(h.2 e he).1, (h.2 e he).2.stands hk⟩⟩
  | keeping | filling | resting => exact ⟨h.1.mono hle, h.2.stands hk⟩
  | dropping => exact ⟨h.1.trans hle, h.2.stands hk⟩
  | dead req =>
    cases req with
    | none => trivial
    | some => exact ⟨h.1.trans hle, h.2.stands hk⟩

end Keeps

/-- A step moves the pointer forward, if at all, and within `bound`. -/
def PublishEffect.Forward (bound : Nat) (kv : KvKey (ScopePointer K T)) : PublishEffect K T → Prop
  | .move kv' => ∃ p, kv' = kv.push (some p) ∧ p.epoch ≤ bound ∧ ∀ q ∈ kv.value, q.epoch ≤ p.epoch
  | _ => True

variable {kv : KvKey (ScopePointer K T)} {eff : PublishEffect K T}

lemma PublishEffect.Forward.stands {bound : Nat}
    (h : eff.Forward bound kv) : kv.Stands (eff.pointer kv) := by
  cases eff with
  | move =>
    obtain ⟨p, rfl, -⟩ := h
    exact .push kv _
  | _ => exact .refl kv

lemma PublishEffect.Forward.le {bound : Nat}
    (h : eff.Forward bound kv) (hk : ∀ p ∈ kv.value, p.epoch ≤ bound) :
    ∀ p ∈ (eff.pointer kv).value, p.epoch ≤ bound := by
  cases eff with
  | move =>
    obtain ⟨p, rfl, hp, -⟩ := h
    rintro _ ⟨⟩
    exact hp
  | _ => exact hk

lemma PublishEffect.Forward.exists_le {bound : Nat} (h : eff.Forward bound kv) :
    ∀ p ∈ kv.value, ∃ p' ∈ (eff.pointer kv).value, p.epoch ≤ p'.epoch := by
  intro p hp
  cases eff with
  | move =>
    obtain ⟨q, rfl, -, hle⟩ := h
    exact ⟨q, rfl, hle p hp⟩
  | _ => exact ⟨p, hp, le_rfl⟩

def PublishPc.stagedEpoch : PublishPc K T → Option Nat
  | .staged stage => some stage.epoch
  | _ => none

namespace ScopeView

variable {x : SnapshotSetup K T} {v : ScopeView K T} {pc pc' : PublishPc K T} {bound : Nat}

lemma sound_readL3 (hb : v.committed ≤ bound) (hnext : v.readL3 pc = some pc') :
    pc'.Sound bound v.pointer := by
  unfold readL3 at hnext
  split at hnext <;> cases hnext
  · exact hb
  · exact ⟨hb, by rintro rev ⟨⟩⟩
  · exact hb

lemma notPast_of_getEntry {epoch : Nat} (h : ∀ q ∈ v.pointer.value, q.epoch ≤ epoch) :
    NotPast v.pointer (v.pointer.getEntry.map Prod.snd) epoch := by
  intro r hr
  obtain ⟨⟨p, r⟩, he, rfl⟩ := map_eq_some_iff.1 hr
  apply (KvKey.HeldAt.of_getEntry he).knownAt
  obtain ⟨q, hq, heq⟩ := map_eq_some_iff.1 he
  cases heq
  exact h _ hq

lemma epoch_le_of_supersedes {p q : ScopePointer K T} {held : Option (ScopePointer K T)}
    (h : p.Supersedes held) (hq : q ∈ held) : q.epoch ≤ p.epoch := by
  obtain hlt | ⟨he, -⟩ := h q hq
  · exact hlt.le
  · exact he.ge

lemma sound_publishes {epoch : Nat} (h : epoch ≤ bound) :
    (v.publishes epoch).Sound bound v.pointer := by
  unfold publishes
  split_ifs
  · trivial
  · exact ⟨h, by rintro rev ⟨⟩⟩

variable {p : ScopePointer K T} {onLost : OnLost K T}

lemma sound_missing {left : List (ChunkName K T)} {moveFrom : Option (Option Nat)}
    (h : (PublishPc.confirming p left moveFrom onLost).Sound bound v.pointer) :
    (missing (moveFrom.getD none) onLost).Sound bound v.pointer := by
  cases onLost with
  | again =>
    refine ⟨h.2.2.1, ?_⟩
    cases moveFrom with
    | none => rintro r ⟨⟩
    | some rev =>
      rw [← h.2.2.2]
      exact h.2.1 rev rfl
  | _ => trivial

lemma sound_confirmed {left : List (ChunkName K T)} {moveFrom : Option (Option Nat)}
    (h : (PublishPc.confirming p left moveFrom onLost).Sound bound v.pointer) :
    (confirmed p moveFrom onLost).Sound bound v.pointer := by
  cases moveFrom with
  | some rev => exact ⟨h.1, h.2.1 rev rfl, h.2.2⟩
  | none =>
    cases onLost with
    | retry => exact h.1
    | _ => trivial

lemma sound_taken (h : onLost.Committed bound p.epoch) : (taken onLost).Sound bound kv := by
  cases onLost with
  | carry => exact h
  | _ => trivial

lemma sound_lost (hp : p.epoch ≤ bound) (h : onLost.Committed bound p.epoch) :
    (lost p onLost).Sound bound kv := by
  cases onLost with
  | retry => exact hp
  | ends => trivial
  | again => exact h.1
  | carry => exact h

lemma forward_of_swap {rev : Option Nat} (hp : p.epoch ≤ bound)
    (h : NotPast v.pointer rev p.epoch) (hw : v.pointer.swap p rev = some kv) :
    (PublishEffect.move kv).Forward bound v.pointer := by
  obtain ⟨hr, rfl⟩ := KvKey.swap_eq_some_iff.1 hw
  refine ⟨p, rfl, hp, fun q hq => ?_⟩
  cases rev with
  | none => exact absurd (hr.symm.trans hq) (by simp)
  | some r => exact (h r rfl).holds hr q hq

inductive Serves (v : ScopeView K T) : PublishPc K T → PublishPc K T → PublishEffect K T → Prop
  | taken {p : ScopePointer K T} {revision : Option Nat} {onLost : OnLost K T}
    {kv : KvKey (ScopePointer K T)} (h : v.pointer.swap p revision = some kv) :
    Serves v (.swapping p revision onLost) (taken onLost) (.move kv)
  | lost {p : ScopePointer K T} {revision : Option Nat} {onLost : OnLost K T} :
    Serves v (.swapping p revision onLost) (lost p onLost) .quiet
  | late {p : ScopePointer K T} {revision : Option Nat} {kv : KvKey (ScopePointer K T)}
    (h : v.pointer.swap p revision = some kv) :
    Serves v (.dead (some (p, revision))) (.dead none) (.move kv)
  | refused {p : ScopePointer K T} {revision : Option Nat} :
    Serves v (.dead (some (p, revision))) (.dead none) .quiet

lemma serves_of_serve (hnext : v.serve pc = some (pc', eff)) : v.Serves pc pc' eff := by
  unfold serve at hnext
  split at hnext
  · split at hnext <;> cases hnext
    · exact .taken ‹_›
    · exact .lost
  · split at hnext <;> cases hnext
    · exact .late ‹_›
    · exact .refused
  · cases hnext

variable (h : pc.Sound bound v.pointer)
include h

lemma sound_serve (hnext : v.serve pc = some (pc', eff)) :
    pc'.Sound bound (eff.pointer v.pointer) ∧ eff.Forward bound v.pointer := by
  cases serves_of_serve hnext with
  | taken hw => exact ⟨sound_taken h.2.2, forward_of_swap h.1 h.2.1 hw⟩
  | lost => exact ⟨sound_lost h.1 h.2.2, trivial⟩
  | late hw => exact ⟨trivial, forward_of_swap h.1 h.2 hw⟩
  | refused => exact ⟨trivial, trivial⟩

lemma sound_get (hnext : v.get pc = some pc') : pc'.Sound bound v.pointer := by
  cases pc with
  | getting use keys =>
    cases keys with
    | cons => cases use <;> cases hnext <;> exact h
    | nil =>
      cases use with try cases hnext
      | stage =>
        refine ⟨h.1, ?_⟩
        rintro e ⟨⟩
        exact h.2
      | carry => exact h
  | _ => cases hnext

lemma sound_keep {ok : Bool} (hnext : keep ok pc = some (pc', eff)) :
    pc'.Sound bound v.pointer ∧ ∀ kv, eff ≠ .move kv := by
  cases pc with
  | keeping =>
    cases ok with try cases hnext
    | true => exact ⟨h.1, by simp⟩
    | false => exact ⟨h, by simp⟩
  | _ => cases hnext

lemma sound_fill {settled : Bool}
    (hnext : v.fill x settled pc = some pc') : pc'.Sound bound v.pointer := by
  cases pc with
  | filling job =>
    simp only [fill] at hnext
    by_cases hd : x.diffable = true
    · rw [if_pos hd] at hnext
      cases hnext
      trivial
    rw [if_neg hd] at hnext
    cases hi : job.filled with rw [hi] at hnext
    | some p =>
      cases hnext
      have hepoch := h.1.2 p hi
      exact ⟨hepoch.le.trans h.1.1, hepoch ▸ h.2, h.1, hepoch⟩
    | none =>
      simp only at hnext
      split_ifs at hnext <;> cases hnext
      · exact h
      · trivial
  | _ => cases hnext

omit h

lemma sound_stuck {job : StagedJob K T} {attempts rev : Nat}
    {got : List (ScopeRecord K T)} {publishing : Bool} (ho : job.Committed bound)
    (hnotPast : NotPast v.pointer (some rev) job.stage.epoch) :
    (stuck job attempts p rev got publishing).Sound bound v.pointer := by
  unfold stuck
  split_ifs
  · trivial
  · exact ⟨ho, hnotPast⟩
  · exact ⟨ho, hnotPast⟩
  · exact ⟨ho, hnotPast⟩

section

variable [Fintype T]

lemma sound_folds (hle : ∀ p ∈ v.pointer.value, p.epoch ≤ bound) :
    (v.folds x).Sound bound v.pointer := by
  unfold folds
  split
  · trivial
  rename_i p rev he
  split_ifs
  · obtain ⟨q, hq, heq⟩ := map_eq_some_iff.1 he
    cases heq
    refine ⟨hle p hq, ?_⟩
    rintro _ ⟨⟩ r hr
    cases hr
    exact (KvKey.HeldAt.of_getEntry he).knownAt le_rfl
  · trivial

lemma epoch_of_rested {job : StagedJob K T} {fil : Bool} {done : T → Option (ScopeChunk K T)}
    {p : ScopePointer K T} (h : job.rested fil done = some p) : p.epoch = job.stage.epoch := by
  unfold StagedJob.rested at h
  split_ifs at h <;> exact (chains_of_ofChains h).1

variable (h : pc.Sound bound v.pointer)
include h

lemma sound_assemble (hnext : assemble x pc = some pc') : pc'.Sound bound v.pointer := by
  cases pc with
  | writing =>
    obtain ⟨p, hp, rfl⟩ := map_eq_some_iff.1 hnext
    obtain ⟨hepoch, -⟩ := chains_of_ofChains hp
    refine ⟨hepoch.le.trans h.1, fun rev hr => ?_, ?_⟩
    · rw [hepoch]
      exact h.2 rev hr
    · split_ifs <;> trivial
  | staging =>
    simp only [assemble] at hnext
    split_ifs at hnext
    cases hnext
    trivial
  | resting _ _ rev =>
    obtain ⟨p, hp, rfl⟩ := map_eq_some_iff.1 hnext
    have hepoch := epoch_of_rested hp
    have hnotPast : NotPast v.pointer rev p.epoch := hepoch ▸ h.2
    split_ifs
    · refine ⟨hepoch.le.trans h.1.1, hnotPast, ⟨h.1.1, ?_⟩, hepoch⟩
      rintro _ ⟨⟩
      exact hepoch
    refine ⟨hepoch.le.trans h.1.1, ?_, h.1, hepoch⟩
    rintro _ ⟨⟩
    exact hnotPast
  | _ => cases hnext

omit h in
lemma sound_publishStaged {carryAt : Nat} {whole : Bool}
    (ht : ∀ epoch ∈ pc.stagedEpoch, epoch ≤ bound)
    (hnext : publishStaged x carryAt whole pc = some pc') : pc'.Sound bound v.pointer := by
  cases pc with
  | staged stage =>
    have hepoch := ht stage.epoch rfl
    simp only [publishStaged] at hnext
    split_ifs at hnext
    · obtain ⟨p, hp, rfl⟩ := map_eq_some_iff.1 hnext
      refine ⟨(chains_of_ofChains hp).1.le.trans hepoch, ?_, trivial⟩
      rintro rev ⟨⟩
    cases hnext
    exact ⟨hepoch, by rintro p ⟨⟩⟩
  | _ => cases hnext

lemma sound_complete {fresh publishing : Bool}
    (hnext : complete x fresh publishing pc = some pc') : pc'.Sound bound v.pointer := by
  cases pc with
  | completing job _ entry got =>
    cases entry with
    | none =>
      cases hnext
      split_ifs <;> exact ⟨h.1, by rintro r ⟨⟩⟩
    | some entry =>
      obtain ⟨hlt, hheld⟩ := h.2 entry rfl
      have hnotPast : NotPast v.pointer (some entry.2) job.stage.epoch := by
        rintro r ⟨⟩
        exact hheld.knownAt hlt.le
      simp only [complete] at hnext
      cases hq : completed job.own (some entry.1) got none with (rw [hq] at hnext; cases hnext)
      | none => exact sound_stuck h.1 hnotPast
      | some q =>
        have hepoch : q.epoch = job.stage.epoch := epoch_of_completed hq
        refine ⟨hepoch.le.trans h.1.1, ?_, h.1, hepoch⟩
        rintro rev ⟨⟩
        rw [hepoch]
        exact hnotPast
  | _ => cases hnext

lemma sound_drop (hnext : drop x pc = some (pc', eff)) :
    pc'.Sound bound v.pointer ∧ ∀ kv, eff ≠ .move kv := by
  cases pc with try cases hnext
  | dropping reached =>
    cases reached with try cases hnext
    | cons => exact ⟨h, by simp⟩
    | nil =>
      refine ⟨?_, by simp⟩
      split_ifs with ht
      · refine ⟨(chained_le ht).trans h.1, ?_, h.1⟩
        rintro _ ⟨⟩ r ⟨⟩
        exact h.2.knownAt epoch_le_chained
      · trivial
  | discarding => exact ⟨trivial, by simp⟩

end

section

variable [DecidableEq T]

/-- What a put can do: a chunk of the epoch of the call is written. -/
inductive Puts (v : ScopeView K T) : PublishPc K T → PublishPc K T → PublishEffect K T → Prop
  | writing {w : ScopeWrite K T} {done : T → Option (ScopeChunk K T)} {t : T} {c : ScopeChunk K T}
    (hscope : c.name.scope = v.scope) (hepoch : c.name.epoch = w.epoch) :
    Puts v (.writing w done) (.writing w (Function.update done t (some c))) (.put c.name)
  | staging {epoch : Nat} {kinds : T → Option Bool} {done : T → Option (ScopeChunk K T)} {t : T}
    {c : ScopeChunk K T} (hscope : c.name.scope = v.scope) (hepoch : c.name.epoch = epoch) :
    Puts v (.staging epoch kinds done) (.staging epoch kinds (Function.update done t (some c)))
      (.put c.name)
  | resting {job : StagedJob K T} {attempts : Nat} {revision : Option Nat} {fills : Bool}
    {done : T → Option (ScopeChunk K T)} {t : T} {c : ScopeChunk K T}
    (hscope : c.name.scope = v.scope) (hepoch : c.name.epoch = job.stage.epoch) :
    Puts v (.resting job attempts revision fills done)
      (.resting job attempts revision fills (Function.update done t (some c))) (.put c.name)

lemma puts_of_put {t : T} {var rows size : Nat}
    (hnext : v.put t var rows size pc = some (pc', eff)) : v.Puts pc pc' eff := by
  unfold put at hnext
  split at hnext
  · obtain ⟨-, ⟨⟩⟩ := ite_none_right_eq_some.1 hnext
    exact .writing rfl rfl
  · split at hnext
    · cases hnext
    obtain ⟨-, ⟨⟩⟩ := ite_none_right_eq_some.1 hnext
    exact .staging rfl rfl
  · obtain ⟨-, ⟨⟩⟩ := ite_none_right_eq_some.1 hnext
    exact .resting rfl rfl
  · cases hnext

variable (h : pc.Sound bound v.pointer)
include h

lemma sound_put {t : T} {var rows size : Nat} (hnext : v.put t var rows size pc = some (pc', eff)) :
    pc'.Sound bound v.pointer ∧ ∀ kv, eff ≠ .move kv := by
  cases puts_of_put hnext with
  | writing | resting => exact ⟨h, by simp⟩
  | staging => exact ⟨trivial, by simp⟩

variable [DecidableEq K]

lemma sound_exist (hnext : v.exist pc = some pc') : pc'.Sound bound v.pointer := by
  cases pc with
  | confirming _ left =>
    cases left with try cases hnext
    | nil => exact sound_confirmed h
    | cons =>
      split_ifs
      · exact h
      · exact sound_missing h
  | checking _ left =>
    cases left with try cases hnext
    | nil => exact h
    | cons =>
      split_ifs
      · exact h
      · trivial
  | _ => cases hnext

variable [Fintype T]

omit h in
lemma sound_adds {epoch after : Nat} {added : T → Bool} (h : epoch ≤ bound) :
    (v.adds epoch after added).Sound bound v.pointer := by
  unfold adds
  split_ifs with hpa hchain
  · trivial
  · refine ⟨h, ?_⟩
    rintro rev ⟨⟩
    refine notPast_of_getEntry fun q hq => ?_
    by_contra hlt
    exact hpa (.inl ⟨q, hq, (not_le.1 hlt).le⟩)
  · trivial

lemma sound_read (hle : ∀ p ∈ v.pointer.value, p.epoch ≤ bound) (hnext : v.read x pc = some pc') :
    pc'.Sound bound v.pointer := by
  cases pc with try cases hnext
  | publishing => exact sound_publishes h
  | adding => exact sound_adds h
  | folding => exact sound_folds hle
  | moving _ attempts =>
    cases attempts with
    | zero =>
      cases hnext
      trivial
    | succ =>
      simp only [read] at hnext
      split_ifs at hnext with hu <;> cases hnext
      · exact ⟨h, notPast_of_getEntry fun q hq => epoch_le_of_supersedes hu hq, trivial⟩
      · trivial
  | trying _ attempts =>
    cases attempts with
    | zero =>
      cases hnext
      trivial
    | succ =>
      simp only [read] at hnext
      cases he : v.pointer.getEntry with rw [he] at hnext
      | none =>
        cases hnext
        exact ⟨h, by rintro e ⟨⟩⟩
      | some =>
        have hheld := KvKey.HeldAt.of_getEntry he
        simp only at hnext
        split_ifs at hnext with hr hbehind <;> cases hnext
        · trivial
        · exact ⟨h, not_le.1 hr, hheld⟩
        refine ⟨h, ?_⟩
        rintro e ⟨⟩
        exact ⟨not_le.1 hr, hheld⟩
  | carrying _ left attempts =>
    cases left with
    | nil =>
      cases hnext
      trivial
    | cons =>
      cases attempts with
      | zero =>
        cases hnext
        trivial
      | succ =>
        simp only [read] at hnext
        cases he : v.pointer.getEntry with (rw [he] at hnext; cases hnext)
        | none => trivial
        | some => exact ⟨h, .of_getEntry he⟩

omit h

/-- What a call knows stays so over a step of its own, which moves the pointer forward if at all. -/
theorem sound_next {a : PublishAct T} (hb : v.committed ≤ bound) (h : pc.Sound bound v.pointer)
    (hle : ∀ p ∈ v.pointer.value, p.epoch ≤ bound)
    (hsa : ∀ carryAt whole, a = .publishStaged carryAt whole →
      ∀ epoch ∈ pc.stagedEpoch, epoch ≤ bound) (hnext : v.next x pc a = some (pc', eff)) :
    pc'.Sound bound (eff.pointer v.pointer) ∧ eff.Forward bound v.pointer := by
  have hq : ∀ {next : Option (PublishPc K T)}, next.map (·, .quiet) = some (pc', eff) →
      (next = some pc' → pc'.Sound bound v.pointer) →
      pc'.Sound bound (eff.pointer v.pointer) ∧ eff.Forward bound v.pointer := by
    rintro _ hma hsn
    obtain ⟨_, hsome, he⟩ := map_eq_some_iff.1 hma
    cases he
    exact ⟨hsn hsome, trivial⟩
  have ht : pc'.Sound bound v.pointer → (∀ kv, eff ≠ .move kv) →
      pc'.Sound bound (eff.pointer v.pointer) ∧ eff.Forward bound v.pointer := by
    intro hsn hm
    cases eff with
    | move kv => exact absurd rfl (hm kv)
    | _ => exact ⟨hsn, trivial⟩
  cases a with
  | readL3 => exact hq hnext (sound_readL3 hb)
  | read => exact hq hnext (sound_read h hle)
  | hold =>
    cases pc with try cases hnext
    | claiming => exact ⟨h, trivial⟩
    | claimingStage => exact ⟨trivial, trivial⟩
  | put =>
    obtain ⟨hsn, hm⟩ := sound_put h hnext
    exact ht hsn hm
  | assemble => exact hq hnext (sound_assemble h)
  | exist => exact hq hnext (sound_exist h)
  | serve => exact sound_serve h hnext
  | release =>
    cases pc with try cases hnext
    | releasing => exact ⟨trivial, trivial⟩
  | recordStaged =>
    cases pc with try cases hnext
    | staged => exact ⟨trivial, trivial⟩
  | publishStaged carryAt whole =>
    exact hq hnext (sound_publishStaged (hsa carryAt whole rfl))
  | discardStaged =>
    refine hq hnext fun hd => ?_
    cases pc with try cases hd
    | staged => trivial
  | list =>
    refine hq hnext fun hl => ?_
    cases pc with try cases hl
    | listing => exact h
  | get => exact hq hnext (sound_get h)
  | complete => exact hq hnext (sound_complete h)
  | keep =>
    obtain ⟨hsn, hm⟩ := sound_keep h hnext
    exact ht hsn hm
  | fill => exact hq hnext (sound_fill h)
  | drop =>
    obtain ⟨hsn, hm⟩ := sound_drop h hnext
    exact ht hsn hm
  | giveUp =>
    refine hq hnext fun hu => ?_
    cases pc <;> cases hu <;> trivial
  | die =>
    refine hq hnext fun hi => ?_
    cases pc with
    | swapping =>
      cases hi
      exact ⟨h.1, h.2.1⟩
    | _ => cases hi <;> trivial
  | vanish =>
    refine hq hnext fun hva => ?_
    cases pc with
    | dead req =>
      cases req with try cases hva
      | some => trivial
    | _ => cases hva

end

end ScopeView

namespace SnapshotRun

variable [LinearOrder K] [DecidableEq T] [DecidableEq ι] [DecidableEq ρ] [DecidableEq κ]
  [DecidableEq ς] [Fintype T] {x : SnapshotSetup K T} {s s' : SnapshotRun K T D ι ρ κ ς}

def Committed (s : SnapshotRun K T D ι ρ κ ς) : SnapshotAct K T D ι ρ κ ς → Prop
  | .start _ _ k (.publish epoch) | .start _ _ k (.publishAdded epoch _ _) =>
    epoch ≤ epochOf s.db.table k
  | .call c (.publishStaged _ _) =>
    ∀ call ∈ s.calls c, ∀ epoch ∈ call.pc.stagedEpoch, epoch ≤ epochOf s.db.table call.scope
  | _ => True

instance (s : SnapshotRun K T D ι ρ κ ς) (a) : Decidable (s.Committed a) := by
  unfold Committed
  split <;> infer_instance

/-- No pointer is ahead of L3, and every call knows what it is about to do. -/
structure Bounded (x : SnapshotSetup K T) (s : SnapshotRun K T D ι ρ κ ς) : Prop where
  db : s.db.Inv x.whole
  pointers : ∀ k, ∀ p ∈ (s.pointers k).value, p.epoch ≤ epochOf s.db.table k
  calls : ∀ c, ∀ call ∈ s.calls c,
    call.pc.Sound (epochOf s.db.table call.scope) (s.pointers call.scope)

def Forward (s s' : SnapshotRun K T D ι ρ κ ς) : Prop :=
  ∀ k, ∀ p ∈ (s.pointers k).value, ∃ p' ∈ (s'.pointers k).value, p.epoch ≤ p'.epoch

omit [DecidableEq T] [DecidableEq ι] [DecidableEq ρ] [DecidableEq κ] [DecidableEq ς] [Fintype T] in
lemma Forward.of_eq (h : s'.pointers = s.pointers) : s.Forward s' := by
  intro k p hp
  rw [h]
  exact ⟨p, hp, le_rfl⟩

theorem Bounded.step {a : SnapshotAct K T D ι ρ κ ς} (h : s.Bounded x) (hc : s.Committed a)
    (hm : s.Moves x a s') : s'.Bounded x ∧ s.Forward s' := by
  cases hm with
  | db _ _ hdb =>
    have hle := h.db.epochOf_le hdb
    refine ⟨⟨h.db.step hdb, fun k p hp => (h.pointers k p hp).trans (hle k), ?_⟩, .of_eq rfl⟩
    exact fun c call hcall => (h.calls c call hcall).mono (hle _) (.refl _)
  | apply r k p | lapse c | sweep | look | delete | swept => exact ⟨{ h with }, .of_eq rfl⟩
  | start _ _ _ call =>
    refine ⟨⟨h.db, h.pointers, ?_⟩, .of_eq rfl⟩
    refine forall_update (I := fun _ (call : Option (PublishCall K T ρ)) => ∀ call' ∈ call,
      call'.pc.Sound (epochOf s.db.table call'.scope) (s.pointers call'.scope)) h.calls ?_
    rintro _ ⟨⟩
    cases call with
    | publish | publishAdded => exact hc
    | _ => trivial
  | call c _ call _ eff hcall hnext =>
    obtain ⟨hsn, ho⟩ := ScopeView.sound_next le_rfl (h.calls c call hcall)
      (h.pointers _) (by
      rintro carryAt whole rfl
      exact hc call hcall) hnext
    have ht : ∀ k, (s.pointers k).Stands (Function.update s.pointers call.scope
        (eff.pointer (s.pointers call.scope)) k) :=
      forall_update (I := fun k kv => (s.pointers k).Stands kv) (fun k => .refl _) ho.stands
    refine ⟨⟨?_, ?_, ?_⟩, ?_⟩
    · simpa [setPc] using h.db
    · simp only [setPc, effect_pointers, effect_db]
      refine forall_update (I := fun k (kv : KvKey (ScopePointer K T)) => ∀ p ∈ kv.value,
        p.epoch ≤ epochOf s.db.table k) h.pointers ?_
      exact ho.le (h.pointers call.scope)
    · simp only [setPc, effect_pointers, effect_db, effect_calls]
      refine forall_update (I := fun _ (call' : Option (PublishCall K T ρ)) => ∀ q ∈ call',
        q.pc.Sound (epochOf s.db.table q.scope) (Function.update s.pointers call.scope
          (eff.pointer (s.pointers call.scope)) q.scope)) ?_ ?_
      · exact fun c' q hq => (h.calls c' q hq).mono le_rfl (ht q.scope)
      rintro _ ⟨⟩
      rw [Function.update_self]
      exact hsn
    simp only [Forward, setPc, effect_pointers]
    refine forall_update (I := fun k (kv : KvKey (ScopePointer K T)) =>
      ∀ p ∈ (s.pointers k).value, ∃ p' ∈ kv.value, p.epoch ≤ p'.epoch)
      (fun k p hp => ⟨p, hp, le_rfl⟩) ?_
    exact ho.exists_le

omit [DecidableEq ι] [DecidableEq T] [DecidableEq ρ] [DecidableEq κ] [DecidableEq ς] [Fintype T] in
lemma Bounded.start (data : D) : (start data : SnapshotRun K T D ι ρ κ ς).Bounded x where
  db := .start data
  pointers := by rintro k p ⟨⟩
  calls := by rintro c call ⟨⟩

/-- Whatever the calls and sweeps of any number of replicas do, and wherever they die: a scope's
pointer entry is never at an epoch that L3 has not committed for the scope, and never goes to a
lower epoch. -/
theorem pointer_epochs {data : D} {as bs : List (SnapshotAct K T D ι ρ κ ς)}
    (hrun : ((system x).guard Committed).run (start data) as = some s)
    (hrun' : ((system x).guard Committed).run s bs = some s') :
    ∀ k, ∀ p ∈ (s.pointers k).value, p.epoch ≤ epochOf s.db.table k ∧
      ∃ p' ∈ (s'.pointers k).value, p.epoch ≤ p'.epoch := by
  have hs : s.Bounded x := by
    refine StepSystem.run_guard_invariant _ (I := Bounded x) (fun s a s' h hc ht => ?_)
      (.start data) hrun
    exact (h.step hc (moves_of_step ht)).1
  have hs' : s'.Bounded x ∧ s.Forward s' := by
    refine StepSystem.run_guard_invariant _ (I := fun t => t.Bounded x ∧ s.Forward t)
      (fun t a t' h hc ht => ?_) ⟨hs, .of_eq rfl⟩ hrun'
    obtain ⟨hb, ho⟩ := h.1.step hc (moves_of_step ht)
    refine ⟨hb, fun k p hp => ?_⟩
    obtain ⟨q, hq, hpq⟩ := h.2 k p hp
    obtain ⟨r, hr, hqr⟩ := ho k q hq
    exact ⟨r, hr, hpq.trans hqr⟩
  exact fun k p hp => ⟨hs.pointers k p hp, hs'.2 k p hp⟩

def oneTable : SnapshotSetup Nat Unit := ⟨0, [()], fun _ => by simp, 2, 1000, false⟩

def writes (version : Nat) : List (SnapshotAct Nat Unit Unit Unit Unit (Fin 3) Unit) :=
  List.map .db [.openTx (), .lockVersion (), .takeVersion (), .commitTx (),
    .openTx (), .touch () version [7], .mark (), .writeData () id, .commitTx ()]

def commits (version : Nat) : List (SnapshotAct Nat Unit Unit Unit Unit (Fin 3) Unit) :=
  List.map .db [.openTx (), .commit () version [], .readBehind (), .moveScopes (), .commitTx ()]

def firstPublish : List (SnapshotAct Nat Unit Unit Unit Unit (Fin 3) Unit) :=
  writes 1 ++ commits 1 ++ .start 0 () 7 (.publish 1) ::
    [.read, .hold, .put () 0 3 10, .assemble, .exist, .exist, .read, .serve, .release].map (.call 0)

/-- The second write stages a piece and keeps it, and its writer dies once it has committed. -/
def keptStage : List (SnapshotAct Nat Unit Unit Unit Unit (Fin 3) Unit) :=
  writes 2 ++ .start 1 () 7 (.stage 2 fun _ => some true) ::
    [.hold, .put () 0 1 5, .assemble, .recordStaged 1].map (.call 1) ++ commits 2 ++
    [.call 1 .die, .lapse 1]

def carriedOn : List (SnapshotAct Nat Unit Unit Unit Unit (Fin 3) Unit) :=
  .start 2 () 7 .carry ::
    [.readL3, .list, .get, .get, .read, .drop, .exist, .exist, .exist, .serve].map (.call 2)

theorem pointer_epochs_carriedOn :
    ∃ s s', ((system oneTable).guard Committed).run (start ()) firstPublish = some s ∧
      ((system oneTable).guard Committed).run s (keptStage ++ carriedOn) = some s' ∧
      ((s.pointers 7).value.map Pointer.epoch = some 1 ∧
        (s'.pointers 7).value.map Pointer.epoch = some 2) ∧
      ∀ p ∈ (s.pointers 7).value, p.epoch ≤ epochOf s.db.table 7 ∧
        ∃ p' ∈ (s'.pointers 7).value, p.epoch ≤ p'.epoch := by
  obtain ⟨s, hr, hs⟩ : ∃ s, ((system oneTable).guard Committed).run (start ()) firstPublish =
      some s ∧ (s.pointers 7).value.map epoch = some 1 ∧
        ((((system oneTable).guard Committed).run s (keptStage ++ carriedOn)).any fun s' =>
          (s'.pointers 7).value.map epoch = some 2) = true :=
    StepSystem.exists_run_of_any _ rfl
  obtain ⟨s', hr', hs'⟩ : ∃ s', ((system oneTable).guard Committed).run s
    (keptStage ++ carriedOn) = some s' ∧
      (s'.pointers 7).value.map epoch = some 2 :=
    StepSystem.exists_run_of_any _ hs.2
  exact ⟨s, s', hr, hr', ⟨hs.1, hs'⟩, pointer_epochs hr hr' 7⟩

end SnapshotRun

end ThreeTears
