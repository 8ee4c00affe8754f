import ThreeTears.Snapshot.ChunkClaims

/-!
# A call only moves its pointer onto chunks that are spoken for

One lemma for each thing a call does: what speaks for its chunks before the step does so after it.
-/

namespace ThreeTears

open List ScopeView Option SnapshotSetup

variable {K T : Type*}

/-- The chunks that a step of a call has the pointer or a kept stage speak for were spoken for
before. -/
def PublishEffect.Spoken (x : SnapshotSetup K T) (g : Ground K T) : PublishEffect K T → Prop
  | .move kv => ∃ p, kv = g.pointer.push (some p) ∧ ∀ n ∈ x.names p, g.Backs x true n
  | .keep r => ∀ n ∈ x.stageNames r.tables, g.Owns n
  | _ => True

namespace Ground

def view (g : Ground K T) (committed : Nat) (store : List (ChunkName K T))
    (applied : Option (ScopePointer K T)) : ScopeView K T :=
  ⟨g.scope, committed, g.pointer, g.records, store, applied⟩

variable {x : SnapshotSetup K T} {g : Ground K T} {committed : Nat} {store : List (ChunkName K T)}
  {applied : Option (ScopePointer K T)} {pc pc' : PublishPc K T} {eff : PublishEffect K T}
  {n : ChunkName K T}

lemma Owns.backs (h : g.Owns n) (kept : Bool) : g.Backs x kept n := ⟨h.1, .inr (.inl h)⟩

variable {p : ScopePointer K T}

lemma Scoped.backs (h : g.Scoped x)
    (hp : g.pointer.value = some p) (hn : n ∈ x.names p) (kept : Bool) : g.Backs x kept n :=
  ⟨h.pointer p hp n hn, .inl ⟨p, hp, hn⟩⟩

lemma Stands.backs (h : g.Scoped x) {r : ScopeRecord K T} (hr : g.Stands r)
    (hp : g.pointer.value = some p) (hlt : p.epoch < r.epoch)
    (hn : n ∈ x.stageNames r.tables) : g.Backs x true n := by
  have hh : Ahead g.pointer.value r.epoch := by
    intro q hq
    cases hp.symm.trans hq
    exact hlt
  obtain hr | he := hr
  · exact ⟨h.records _ r hr n hn, .inr (.inr ⟨rfl, _, r, hr, hh, hn⟩)⟩
  · exact absurd hh he

lemma Backs.kept {kept : Bool} (h : g.Backs x kept n) : g.Backs x true n :=
  ⟨h.1, h.2.imp_right fun h => h.imp_right fun hk => ⟨rfl, hk.2⟩⟩

lemma backed_all (epoch : Nat) : (PublishPc.claiming (.all epoch)).Backed x g := by rintro base ⟨⟩

lemma backed_readL3 (hnext : (g.view committed store applied).readL3 pc = some pc') :
    pc'.Backed x g := by
  cases pc with try cases hnext
  | readingL3 rco => cases rco <;> cases hnext <;> first | trivial | exact backed_all _
  | startingCarry => trivial

lemma backed_hold (h : pc.Backed x g) (hnext : hold pc = some (pc', eff)) :
    pc'.Backed x (g.effect eff) := by
  cases pc with try cases hnext
  | claiming w => exact ⟨h, mem_cons_self, by rintro t w ⟨⟩⟩
  | claimingStage => exact ⟨mem_cons_self, by rintro t w ⟨⟩⟩

variable {onLost : OnLost K T}

lemma backed_missing {rev : Option Nat}
    (h : onLost.Backed x g p) : (missing rev onLost).Backed x g := by
  cases onLost with
  | again => exact h
  | _ => trivial

lemma backed_confirmed {left : List (ChunkName K T)} {moveFrom : Option (Option Nat)}
    (h : (PublishPc.confirming p left moveFrom onLost).Backed x g) :
    (confirmed p moveFrom onLost).Backed x g := by
  cases moveFrom with
  | some rev => exact ⟨h.1 rev rfl, h.2.2⟩
  | none =>
    cases onLost with
    | retry => exact h.2.1 rfl
    | _ => trivial

lemma backed_taken (h : onLost.Backed x g p) : (taken onLost).Backed x g := by
  cases onLost with
  | carry => exact h
  | _ => trivial

lemma backed_lost (h : onLost.Backed x g p) : (lost p onLost).Backed x g := by
  cases onLost with
  | ends => trivial
  | _ => exact h

variable {bound : Nat}

lemma grows_move {kv : KvKey (ScopePointer K T)}
    (h : (PublishEffect.move kv).Forward bound g.pointer) (kept : Bool) :
    g.Grows (g.effect (.move kv)) kept := by
  refine ⟨rfl, h.stands, fun epoch hh p hp => ?_, fun _ hn => hn, fun _ he => he,
    fun _ _ hr => .inl hr⟩
  obtain ⟨p', hp', hle⟩ := h.exists_le p hp
  exact hle.trans_lt (hh p' hp')

variable (h : pc.Backed x g)
include h

lemma backed_serve (hsn : pc.Sound bound g.pointer)
    (hnext : (g.view committed store applied).serve pc = some (pc', eff)) :
    pc'.Backed x (g.effect eff) := by
  have ho := (sound_serve hsn hnext).2
  cases serves_of_serve hnext with
  | taken => exact backed_taken (h.2.mono (grows_move ho _))
  | lost => exact backed_lost h.2
  | late | refused => trivial

lemma spoken_serve
    (hnext : (g.view committed store applied).serve pc = some (pc', eff)) : eff.Spoken x g := by
  have hm : ∀ {p : ScopePointer K T} {rev : Option Nat} {kv : KvKey (ScopePointer K T)}
      {kept : Bool}, (g.pointer.Fresh rev → ∀ n ∈ x.names p, g.Backs x kept n) →
      g.pointer.swap p rev = some kv → (PublishEffect.move kv).Spoken x g := by
    intro p rev kv kept hb hw
    obtain ⟨hr, rfl⟩ := KvKey.swap_eq_some_iff.1 hw
    exact ⟨p, rfl, fun n hn => (hb hr n hn).kept⟩
  cases serves_of_serve hnext with
  | taken hw => exact hm h.1 hw
  | late hw => exact hm h hw
  | lost | refused => trivial

lemma backed_get (hnext : (g.view committed store applied).get pc = some pc') : pc'.Backed x g := by
  have hg : ∀ {epoch : Nat} {got : List (ScopeRecord K T)}, (∀ r ∈ got, g.Stands r) →
      ∀ r ∈ got ++ (recordAt g.records epoch).toList, g.Stands r := by
    intro epoch got hg r hr
    obtain hr | hr := mem_append.1 hr
    · exact hg r hr
    have hr := Option.mem_toList.1 hr
    rw [← (mem_of_recordAt hr).2] at hr
    exact .inl hr
  cases pc with
  | getting use keys =>
    cases use with
    | stage =>
      cases keys with try cases hnext
      | nil => exact h
      | cons => exact ⟨h.1, hg h.2⟩
    | carry =>
      cases keys with try cases hnext
      | nil => exact h
      | cons => exact hg h
  | _ => cases hnext

lemma backed_list
    (hnext : (g.view committed store applied).list pc = some pc') : pc'.Backed x g := by
  cases pc with
  | listing use =>
    cases use with try cases hnext
    | stage => exact ⟨h, by simp⟩
    | carry => exact fun _ hr => absurd hr not_mem_nil
  | _ => cases hnext

lemma backed_keep {ok : Bool} (hnext : keep ok pc = some (pc', eff)) :
    pc'.Backed x (g.effect eff) := by
  cases pc with
  | keeping => cases ok <;> cases hnext <;> exact h
  | _ => cases hnext

lemma backed_fill {settled : Bool}
    (hnext : (g.view committed store applied).fill x settled pc = some pc') : pc'.Backed x g := by
  cases pc with
  | filling job =>
    simp only [fill] at hnext
    by_cases hd : x.diffable = true
    · rw [if_pos hd] at hnext
      cases hnext
      trivial
    rw [if_neg hd] at hnext
    cases hi : job.filled with rw [hi] at hnext
    | some p =>
      cases hnext
      exact ⟨fun _ n hn => (h.2.2 p hi n hn).backs _, h⟩
    | none =>
      simp only at hnext
      split_ifs at hnext <;> cases hnext
      · exact ⟨h, by rintro t w ⟨⟩⟩
      · trivial
  | _ => cases hnext

omit h

lemma backed_publishes (epoch : Nat) :
    ((g.view committed store applied).publishes epoch).Backed x g := by
  unfold publishes
  split_ifs
  · trivial
  · exact backed_all epoch

lemma stands_drop {r : ScopeRecord K T} {epoch : Nat} (h : g.Stands r)
    (hre : ¬ Ahead g.pointer.value epoch) : (g.effect (.drop epoch)).Stands r := by
  by_cases he : r.epoch = epoch
  · exact .inr (he ▸ hre)
  refine h.imp_left fun hr => ?_
  simp only [effect]
  rwa [recordAt_drop he]

lemma backed_stuck {job : StagedJob K T} {attempts rev : Nat}
    {got : List (ScopeRecord K T)} {publishing : Bool} (h : job.Owned x g) :
    (stuck job attempts p rev got publishing).Backed x g := by
  unfold stuck
  split_ifs
  · trivial
  · exact h
  · exact h
  · exact h

lemma owns_put {n name : ChunkName K T} (h : g.Owns n) : (g.effect (.put name)).Owns n :=
  ⟨h.1, mem_cons_of_mem _ h.2.1, h.2.2⟩

lemma owned_put {job : StagedJob K T} {name : ChunkName K T} (h : job.Owned x g) :
    job.Owned x (g.effect (.put name)) :=
  ⟨h.1, fun n hn => owns_put (h.2.1 n hn), fun p hp n hn => owns_put (h.2.2 p hp n hn)⟩

section

variable [Fintype T]

lemma backed_folds : ((g.view committed store applied).folds x).Backed x g := by
  unfold folds
  split
  · trivial
  rename_i p rev he
  split_ifs
  · rintro _ ⟨⟩
    exact ⟨rev, rfl, .of_getEntry he⟩
  · trivial

variable (h : pc.Backed x g)
include h

lemma backed_assemble (hsc : g.Scoped x) (hnext : assemble x pc = some pc') : pc'.Backed x g := by
  cases pc with
  | writing w =>
    obtain ⟨p, hp, rfl⟩ := map_eq_some_iff.1 hnext
    have hown : ∀ n ∈ x.names p, w.base = none → g.Owns n := by
      intro n hn hnone
      obtain ⟨base, hb, -⟩ | ⟨t, ch, hc, rfl⟩ := mem_names_assembled hp hn
      · cases hnone.symm.trans hb
      · exact h.2.2 t ch hc
    have hb : w.moveFrom = none → w.base = none := by
      intro hm
      by_contra hsome
      obtain ⟨base, hb⟩ := ne_none_iff_exists'.1 hsome
      obtain ⟨r, hr, -⟩ := h.1 base hb
      rw [hm] at hr
      cases hr
    refine ⟨fun rev hrev hfr n hn => ?_, fun hm n hn => hown n hn (hb hm), ?_⟩
    · obtain ⟨base, hb, hn⟩ | ⟨t, ch, hc, rfl⟩ := mem_names_assembled hp hn
      · obtain ⟨r, hr, hheld⟩ := h.1 base hb
        cases hr.symm.trans hrev
        exact hsc.backs (hheld.holds hfr) hn _
      · exact (h.2.2 t ch hc).backs _
    split_ifs with hm
    · exact fun n hn => hown n hn (hb (isNone_iff_eq_none.1 hm))
    · trivial
  | staging =>
    simp only [assemble] at hnext
    split_ifs at hnext
    cases hnext
    refine ⟨h.1, fun n hn => ?_⟩
    obtain ⟨t, w, hw, rfl⟩ := mem_stageNames_iff.1 hn
    exact h.2 t w hw
  | resting =>
    obtain ⟨p, hp, rfl⟩ := map_eq_some_iff.1 hnext
    have hown : ∀ n ∈ x.names p, g.Owns n := by
      intro n hn
      obtain hn | ⟨t, ch, hc, rfl⟩ := mem_names_rested hp hn
      · exact h.1.2.1 n hn
      · exact h.2 t ch hc
    split_ifs
    · refine ⟨fun _ n hn => (hown n hn).backs _, h.1.1, h.1.2.1, ?_⟩
      rintro _ ⟨⟩
      exact hown
    · exact ⟨fun _ _ _ n hn => (hown n hn).backs _, by rintro ⟨⟩, h.1⟩
  | _ => cases hnext

lemma backed_publishStaged {carryAt : Nat} {whole : Bool}
    (hnext : publishStaged x carryAt whole pc = some pc') : pc'.Backed x g := by
  cases pc with
  | staged =>
    simp only [publishStaged] at hnext
    split_ifs at hnext
    · obtain ⟨p, hp, rfl⟩ := map_eq_some_iff.1 hnext
      have hown : ∀ n ∈ x.names p, g.Owns n := by
        intro n hn
        obtain hn | ⟨t, ch, hc, -⟩ := mem_names_ofChains hp hn
        · exact h.2 n hn
        · cases hc
      exact ⟨by rintro rev ⟨⟩, fun _ => hown, hown⟩
    cases hnext
    exact ⟨h.1, h.2, by rintro p ⟨⟩⟩
  | _ => cases hnext

lemma backed_complete {fresh publishing : Bool} (hsn : pc.Sound bound g.pointer) (hc : g.Scoped x)
    (hnext : ScopeView.complete x fresh publishing pc = some pc') : pc'.Backed x g := by
  cases pc with
  | completing job _ entry got =>
    cases entry with
    | none =>
      cases hnext
      split_ifs
      · exact ⟨h.1, by rintro t w ⟨⟩⟩
      · exact h.1
    | some entry =>
      simp only [ScopeView.complete] at hnext
      cases hq : Pointer.completed job.own (some entry.1) got none with rw [hq] at hnext
      | none =>
        cases hnext
        exact backed_stuck h.1
      | some =>
        cases hnext
        refine ⟨?_, by rintro ⟨⟩, h.1⟩
        rintro _ ⟨⟩ hfr n hn
        have hva := (hsn.2 entry rfl).2.holds hfr
        obtain hn | hn | ⟨r, hr, hlt, hn⟩ := mem_names_completed hq hn
        · exact hc.backs hva hn _
        · exact (h.1.2.1 n hn).backs _
        · exact Stands.backs hc (h.2 r hr) hva hlt hn
  | _ => cases hnext

lemma backed_drop (hsn : pc.Sound bound g.pointer)
    (hc : g.Scoped x) (hnext : drop x pc = some (pc', eff)) : pc'.Backed x (g.effect eff) := by
  cases pc with try cases hnext
  | dropping reached =>
    cases reached with try cases hnext
    | cons r =>
      have he := h.1 r mem_cons_self
      exact ⟨fun r hr => h.1 r (mem_cons_of_mem _ hr), fun r hr => stands_drop (h.2 r hr) he⟩
    | nil =>
      split_ifs
      · refine ⟨?_, by rintro ⟨⟩, h.2⟩
        rintro _ ⟨⟩ hfr n hn
        have hva := hsn.2.holds hfr
        obtain hn | ⟨r, hr, hlt, hn⟩ := mem_names_chained hn
        · exact hc.backs hva hn _
        · exact Stands.backs hc (h.2 r hr) hva hlt hn
      · trivial
  | discarding => trivial

end

section

variable [DecidableEq T]

lemma owns_done {done : T → Option (ScopeChunk K T)} {t : T} {w : ScopeChunk K T}
    (h : ∀ t, ∀ w ∈ done t, g.Owns w.name) (hscope : w.name.scope = g.scope)
    (hc : w.name.epoch ∈ g.claims) :
    ∀ t', ∀ w' ∈ Function.update done t (some w) t', (g.effect (.put w.name)).Owns w'.name := by
  refine forall_update (I := fun _ (done : Option (ScopeChunk K T)) =>
    ∀ w' ∈ done, (g.effect (.put w.name)).Owns w'.name) (fun t w hw => owns_put (h t w hw)) ?_
  rintro _ ⟨⟩
  exact ⟨hscope, mem_cons_self, hc⟩

variable (h : pc.Backed x g)
include h

lemma backed_put {t : T} {var rows size : Nat}
    (hnext : (g.view committed store applied).put t var rows size pc = some (pc', eff)) :
    pc'.Backed x (g.effect eff) := by
  cases puts_of_put hnext with
  | writing hscope he => exact ⟨h.1, h.2.1, owns_done h.2.2 hscope (he ▸ h.2.1)⟩
  | staging hscope he => exact ⟨h.1, owns_done h.2 hscope (he ▸ h.1)⟩
  | resting hscope he => exact ⟨owned_put h.1, owns_done h.2 hscope (he ▸ h.1.1)⟩

variable [DecidableEq K]

lemma backed_exist
    (hnext : (g.view committed store applied).exist pc = some pc') : pc'.Backed x g := by
  cases pc with
  | confirming _ left =>
    cases left with try cases hnext
    | nil => exact backed_confirmed h
    | cons =>
      split_ifs
      · exact h
      · exact backed_missing h.2.2
  | checking _ left =>
    cases left with try cases hnext
    | nil => exact h
    | cons =>
      split_ifs
      · exact h
      · trivial
  | _ => cases hnext

variable [Fintype T]

omit h in
lemma backed_adds {epoch after : Nat} {added : T → Bool} :
    ((g.view committed store applied).adds epoch after added).Backed x g := by
  unfold adds
  split_ifs
  · trivial
  · intro base hb
    have he : g.pointer.getEntry = some (base, g.pointer.revision) :=
      map_eq_some_iff.2 ⟨base, hb, rfl⟩
    refine ⟨g.pointer.revision, ?_, .of_getEntry he⟩
    exact congrArg (fun entry => some (entry.map Prod.snd)) he
  · trivial

lemma backed_read
    (hnext : (g.view committed store applied).read x pc = some pc') : pc'.Backed x g := by
  cases pc with try cases hnext
  | publishing epoch => exact backed_publishes epoch
  | adding => exact backed_adds
  | folding => exact backed_folds
  | moving _ attempts =>
    cases attempts with
    | zero =>
      cases hnext
      trivial
    | succ =>
      simp only [ScopeView.read] at hnext
      split_ifs at hnext <;> cases hnext
      · exact ⟨fun _ n hn => (h n hn).backs _, h⟩
      · trivial
  | trying _ attempts =>
    cases attempts with
    | zero =>
      cases hnext
      trivial
    | succ =>
      simp only [ScopeView.read] at hnext
      cases he : (g.view committed store applied).pointer.getEntry with rw [he] at hnext
      | none =>
        cases hnext
        exact ⟨h, by simp⟩
      | some =>
        simp only at hnext
        split_ifs at hnext <;> cases hnext
        · trivial
        · exact h
        · exact ⟨h, by simp⟩
  | carrying _ left attempts =>
    cases left with
    | nil =>
      cases hnext
      trivial
    | cons r =>
      cases attempts with
      | zero =>
        cases hnext
        trivial
      | succ =>
        simp only [ScopeView.read] at hnext
        cases he : (g.view committed store applied).pointer.getEntry with rw [he] at hnext
        | none =>
          cases hnext
          trivial
        | some =>
          cases hnext
          obtain ⟨p, hp, rfl⟩ := map_eq_some_iff.1 he
          refine ⟨fun r hr hh => ?_, fun r hr => h r (mem_filter.1 hr).1⟩
          have hle : r.epoch ≤ p.epoch := by simpa using (mem_filter.1 hr).2
          exact absurd (hh p hp) (not_lt.2 hle)

/-- What speaks for the chunks of a call before a step of its own does so after it. -/
theorem backed_next {a : PublishAct T} (hsn : pc.Sound bound g.pointer) (hc : g.Scoped x)
    (hnext : (g.view committed store applied).next x pc a = some (pc', eff)) :
    pc'.Backed x (g.effect eff) := by
  have hq : ∀ {next : Option (PublishPc K T)}, next.map (·, .quiet) = some (pc', eff) →
      (next = some pc' → pc'.Backed x g) → pc'.Backed x (g.effect eff) := by
    rintro _ hm hb
    obtain ⟨_, hsome, he⟩ := map_eq_some_iff.1 hm
    cases he
    exact hb hsome
  cases a with
  | readL3 => exact hq hnext backed_readL3
  | read => exact hq hnext (backed_read h)
  | hold => exact backed_hold h hnext
  | put => exact backed_put h hnext
  | assemble => exact hq hnext (backed_assemble h hc)
  | exist => exact hq hnext (backed_exist h)
  | serve => exact backed_serve h hsn hnext
  | release =>
    cases pc with try cases hnext
    | releasing => trivial
  | recordStaged =>
    cases pc with try cases hnext
    | staged => exact h
  | publishStaged => exact hq hnext (backed_publishStaged h)
  | discardStaged =>
    refine hq hnext fun hd => ?_
    cases pc with try cases hd
    | staged => trivial
  | list => exact hq hnext (backed_list h)
  | get => exact hq hnext (backed_get h)
  | complete => exact hq hnext (backed_complete h hsn hc)
  | keep => exact backed_keep h hnext
  | fill => exact hq hnext (backed_fill h)
  | drop => exact backed_drop h hsn hc hnext
  | giveUp =>
    refine hq hnext fun hu => ?_
    cases pc <;> cases hu <;> trivial
  | die =>
    refine hq hnext fun hi => ?_
    cases pc with
    | swapping =>
      cases hi
      exact fun hr n hn => (h.1 hr n hn).kept
    | _ => cases hi <;> trivial
  | vanish =>
    refine hq hnext fun hva => ?_
    cases pc with
    | dead req =>
      cases req with try cases hva
      | some => trivial
    | _ => cases hva

/-- A pointer is only moved onto chunks that are backed, and a stage only kept of chunks that are
owned. -/
lemma spoken_next {a : PublishAct T}
    (hnext : (g.view committed store applied).next x pc a = some (pc', eff)) : eff.Spoken x g := by
  have hq : ∀ {next : Option (PublishPc K T)}, next.map (·, .quiet) = some (pc', eff) →
      eff.Spoken x g := by
    rintro _ hm
    obtain ⟨_, -, he⟩ := map_eq_some_iff.1 hm
    cases he
    trivial
  cases a with
  | readL3 | read | assemble | exist | publishStaged | discardStaged | list | get | complete | fill
  | giveUp | die | vanish => exact hq hnext
  | hold => cases pc <;> cases hnext <;> trivial
  | put => cases puts_of_put hnext <;> trivial
  | serve => exact spoken_serve h hnext
  | release =>
    cases pc with try cases hnext
    | releasing => trivial
  | recordStaged =>
    cases pc with try cases hnext
    | staged => exact h.2
  | keep ok =>
    cases pc with
    | keeping =>
      cases ok <;> cases hnext
      · trivial
      · exact h.2.1
    | _ => cases hnext
  | drop =>
    cases pc with try cases hnext
    | dropping reached => cases reached <;> cases hnext <;> trivial
    | discarding => trivial

end

end Ground

end ThreeTears
