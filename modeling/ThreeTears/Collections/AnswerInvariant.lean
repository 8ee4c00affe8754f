import ThreeTears.Collections.VersionedAnswers
import ThreeTears.Lib.Families

/-!
# What the index says of a stored answer

An answer in L2 is named by the index, or its version is retired and a call that computed it has yet
to take it back. `Moved` says what a step leaves of the index, the answers and the calls.
-/

namespace ThreeTears

namespace AnswerRun

variable {V D S ι : Type*}

/-! ### Calls of a key -/

section

variable {v v' : V} {d d' : D} {pc : AnswerPc} {early : Bool} {scope : S} {rpc : RetirePc V D}

/-- The call computes an answer for the key, under the build lock. -/
def Computes (c : Option (AnswerCall V D S)) (v : V) (d : D) (early : Bool) : Prop :=
  ∃ looked, c = some (.answer v d (.computing looked early))

/-- The call computed an answer for the key and has not taken it back. -/
def Ran (c : Option (AnswerCall V D S)) (v : V) (d : D) (early : Bool) : Prop :=
  ∃ pc, c = some (.answer v d pc) ∧ pc.ran = some early

/-- The call computed an answer for the key, and has its answer or its digest to take back. -/
def Leaves (c : Option (AnswerCall V D S)) (v : V) (d : D) : Prop :=
  (∃ early, Ran c v d early) ∨ c = some (.answer v d .dropping)

@[simp] lemma not_computes_none : ¬Computes (none : Option (AnswerCall V D S)) v d early := nofun

@[simp] lemma not_computes_retire :
    ¬Computes (some (.retire scope rpc) : Option (AnswerCall V D S)) v d early := nofun

@[simp] lemma computes_answer :
    Computes (some (.answer v d pc) : Option (AnswerCall V D S)) v' d' early ↔
      v = v' ∧ d = d' ∧ ∃ looked, pc = .computing looked early := by
  simp [Computes]

@[simp] lemma not_ran_none : ¬Ran (none : Option (AnswerCall V D S)) v d early := by simp [Ran]

@[simp] lemma not_ran_retire :
    ¬Ran (some (.retire scope rpc) : Option (AnswerCall V D S)) v d early := by
  simp [Ran]

@[simp] lemma ran_answer : Ran (some (.answer v d pc) : Option (AnswerCall V D S)) v' d' early ↔
      v = v' ∧ d = d' ∧ pc.ran = some early := by
  simp only [Ran, Option.some.injEq, AnswerCall.answer.injEq]
  constructor
  · rintro ⟨pc', ⟨hv, hd, rfl⟩, hr⟩
    exact ⟨hv, hd, hr⟩
  rintro ⟨hv, hd, hr⟩
  exact ⟨pc, ⟨hv, hd, rfl⟩, hr⟩

@[simp] lemma not_leaves_none : ¬Leaves (none : Option (AnswerCall V D S)) v d := by simp [Leaves]

@[simp] lemma not_leaves_retire :
    ¬Leaves (some (.retire scope rpc) : Option (AnswerCall V D S)) v d := by
  simp [Leaves]

@[simp] lemma leaves_answer : Leaves (some (.answer v d pc) : Option (AnswerCall V D S)) v' d' ↔
      v = v' ∧ d = d' ∧ (pc.ran.isSome ∨ pc = .dropping) := by
  simp only [Leaves, ran_answer, Option.some.injEq, AnswerCall.answer.injEq,
    Option.isSome_iff_exists, exists_and_left]
  tauto

end

variable [DecidableEq V] (κ : AnswerKeys V D S)

/-! ### What the index and L2 hold -/

section

variable (s : AnswerRun V D S ι)

def HasVersion (v : V) : Prop :=
  (VersionsRow.membersOf (s.rows (κ.scope v))).get v = some (κ.order v)

def HasDigest (v : V) (d : D) : Prop := d ∈ (s.shards v (κ.shard d)).getD []

def Named (v : V) (d : D) : Prop := HasVersion κ s v ∧ HasDigest κ s v d

/-- The version is retired, no call that was early computes an answer for the key, and some call
will take back an answer there is. -/
structure Spared (v : V) (d : D) : Prop where
  retired : s.retired κ v
  not_early : ∀ i, ¬Computes (s.calls i) v d true
  minded : (s.answers v d).present → ∃ i, Ran (s.calls i) v d false

end

/-- What a step leaves of the index, of the answers and of the calls: `acting` is the call it is
of. -/
structure Moved (acting : Option ι) (s s' : AnswerRun V D S ι) : Prop where
  calls : ∀ j, some j ≠ acting → s'.calls j = s.calls j
  retired : ∀ v, s.retired κ v → s'.retired κ v
  version : ∀ v, HasVersion κ s v → HasVersion κ s' v ∨ ∀ d, Spared κ s v d
  digest : ∀ v d, HasDigest κ s v d → HasDigest κ s' v d ∨ Spared κ s v d
  saved : ∀ v d, (s'.answers v d).present → (s.answers v d).present ∨
    ∃ i, acting = some i ∧ ∃ early, Computes (s.calls i) v d early ∧
      (early = false → Ran (s'.calls i) v d false)
  lost : ∀ v d, (s.answers v d).present → (s'.answers v d).present ∨ s.retired κ v
  early : ∀ i, acting = some i → ∀ v d, Computes (s'.calls i) v d true →
    Computes (s.calls i) v d true ∨ ¬s.retired κ v
  minded : ∀ i, acting = some i → ∀ v d, Ran (s.calls i) v d false →
    Ran (s'.calls i) v d false ∨ ¬(s'.answers v d).present ∨ ¬s.retired κ v
  leaves : ∀ i, acting = some i → ∀ v d, Leaves (s'.calls i) v d →
    Leaves (s.calls i) v d ∨ ∃ early, Computes (s.calls i) v d early

variable {κ} {s s' : AnswerRun V D S ι} {acting : Option ι} {v : V} {d : D}

lemma Spared.moved (h : Spared κ s v d) (hm : Moved κ acting s s') : Spared κ s' v d where
  retired := hm.retired v h.retired
  not_early j hj := by
    by_cases hac : some j = acting
    · rcases hm.early j hac.symm v d hj with hj | ho
      · exact h.not_early j hj
      · exact ho h.retired
    rw [hm.calls j hac] at hj
    exact h.not_early j hj
  minded hpr := by
    rcases hm.saved v d hpr with hb | ⟨i, hi, early, hc, hr⟩
    · obtain ⟨j, hj⟩ := h.minded hb
      by_cases hac : some j = acting
      · rcases hm.minded j hac.symm v d hj with hj | ho | ho
        · exact ⟨j, hj⟩
        · exact absurd hpr ho
        · exact absurd h.retired ho
      · exact ⟨j, by rwa [hm.calls j hac]⟩
    cases early with
    | true => exact absurd hc (h.not_early i)
    | false => exact ⟨i, hr rfl⟩

lemma Named.moved (h : Named κ s v d) (hm : Moved κ acting s s') :
    Named κ s' v d ∨ Spared κ s v d := by
  rcases hm.version v h.1 with he | hsp
  · rcases hm.digest v d h.2 with hd | hsp
    · exact .inl ⟨he, hd⟩
    · exact .inr hsp
  · exact .inr (hsp d)

/-! ### What holds of a call by where it is -/

section

variable (κ) (s)

/-- What a call of `answer` for the key relies on. -/
def AnswerFits (v : V) (d : D) : AnswerPc → Prop
  | .recordVersion => True
  | .recordDigest => HasVersion κ s v ∨ s.retired κ v
  | .look | .waiting _ | .holding _ => Named κ s v d ∨ s.retired κ v
  | .computing _ true => Named κ s v d ∧ ¬(s.answers v d).present ∧ ∀ j, ¬Leaves (s.calls j) v d
  | .computing _ false => s.retired κ v
  | .releasing _ none | .seeding _ none => True
  | .releasing _ (some early) | .seeding _ (some early) | .confirming early =>
    (s.retired κ v ∨ (s.answers v d).present) ∧ (early = false → s.retired κ v)
  | .takingBack _ => s.retired κ v
  | .dropping => Spared κ s v d

structure Taken (scope : S) (e : V × Int) : Prop where
  scope : κ.scope e.1 = scope
  order : e.2 = κ.order e.1
  retired : s.retired κ e.1

/-- What a retirement relies on, with the shards in `left` not yet cleared. -/
structure PassFits (scope : S) (pass : ClearPass V) (left : List (Fin 16)) : Prop where
  todo : ∀ e ∈ pass.todo, Taken κ s scope e
  taken : Taken κ s scope (pass.version, pass.older)
  emptied : pass.emptied → ∀ d, κ.shard d ∉ left → Spared κ s pass.version d

/-- What a call of `retire_older_than` for the scope relies on. -/
def RetireFits (scope : S) : RetirePc V D → Prop
  | .raising _ => True
  | .versions todo => ∀ e ∈ todo, Taken κ s scope e
  | .shards pass => PassFits κ s scope pass pass.shards
  | .digests pass x _ handled | .pausing pass x _ handled _ | .paused pass x _ handled _ =>
    PassFits κ s scope pass (x :: pass.shards) ∧ ∀ d ∈ handled, Spared κ s pass.version d
  | .resuming pass x _ handled d =>
    PassFits κ s scope pass (x :: pass.shards) ∧
      ∀ d' ∈ handled ++ [d], Spared κ s pass.version d'

def CallFits : AnswerCall V D S → Prop
  | .answer v d pc => AnswerFits κ s v d pc
  | .retire scope pc => RetireFits κ s scope pc

structure Inv : Prop where
  locks : ∀ {i c v d}, s.calls i = some c → c.locked = some (v, d) → s.locks v d = some i
  members : ∀ {scope v order}, (VersionsRow.membersOf (s.rows scope)).get v = some order →
    κ.scope v = scope ∧ order = κ.order v
  fits : ∀ {i c}, s.calls i = some c → CallFits κ s c
  touched : ∀ {v d}, (v, d) ∈ s.touched → s.retired κ v
  named : ∀ {v d}, (s.answers v d).present → Named κ s v d ∨ Spared κ s v d

end

variable {scope : S}

omit [DecidableEq V] in
lemma Taken.later {e : V × Int} (h : Taken κ s scope e)
    (hr : ∀ v, s.retired κ v → s'.retired κ v) : Taken κ s' scope e :=
  ⟨h.scope, h.order, hr _ h.retired⟩

lemma PassFits.moved {pass : ClearPass V} {left : List (Fin 16)}
    (h : PassFits κ s scope pass left) (hm : Moved κ acting s s') :
    PassFits κ s' scope pass left where
  todo e he := (h.todo e he).later hm.retired
  taken := h.taken.later hm.retired
  emptied hem d hd := (h.emptied hem d hd).moved hm

lemma RetireFits.moved {pc : RetirePc V D} (h : RetireFits κ s scope pc)
    (hm : Moved κ acting s s') : RetireFits κ s' scope pc := by
  cases pc with
  | raising => trivial
  | versions => exact fun e he => (h e he).later hm.retired
  | shards => exact PassFits.moved h hm
  | digests | pausing | paused | resuming => exact ⟨h.1.moved hm, fun d hd => (h.2 d hd).moved hm⟩

variable (h : Inv κ s)
include h

lemma Inv.computes_unique {i j : ι} {early ear' : Bool}
    (hi : Computes (s.calls i) v d early) (hj : Computes (s.calls j) v d ear') : i = j := by
  obtain ⟨looked, hi⟩ := hi
  obtain ⟨looked', hj⟩ := hj
  have hlock : s.locks v d = some i := h.locks hi rfl
  have hl' : s.locks v d = some j := h.locks hj rfl
  exact Option.some.inj (hlock.symm.trans hl')

variable (hm : Moved κ acting s s')
include hm

lemma Inv.answerFits_moved {j : ι} {pc : AnswerPc}
    (hj : s.calls j = some (.answer v d pc)) (hac : some j ≠ acting) : AnswerFits κ s' v d pc := by
  have hfi : AnswerFits κ s v d pc := h.fits hj
  have hna : Named κ s v d ∨ s.retired κ v → Named κ s' v d ∨ s'.retired κ v := by
    rintro (hna | hr)
    · rcases hna.moved hm with hna | hsp
      · exact .inl hna
      · exact .inr (hm.retired v hsp.retired)
    · exact .inr (hm.retired v hr)
  have hra : ∀ {early : Bool}, (s.retired κ v ∨ (s.answers v d).present) ∧
      (early = false → s.retired κ v) → (s'.retired κ v ∨ (s'.answers v d).present) ∧
      (early = false → s'.retired κ v) := fun {early} hra => by
    refine ⟨?_, fun hlate => hm.retired v (hra.2 hlate)⟩
    rcases hra.1 with hr | hpr
    · exact .inl (hm.retired v hr)
    · exact (hm.lost v d hpr).symm.imp_left (hm.retired v)
  match pc, hfi, hj with
  | .recordVersion, _, _ => trivial
  | .recordDigest, hfi, _ =>
    rcases hfi with he | hr
    · rcases hm.version v he with he | hsp
      · exact .inl he
      · exact .inr (hm.retired v (hsp d).retired)
    · exact .inr (hm.retired v hr)
  | .look, hfi, _ => exact hna hfi
  | .waiting _, hfi, _ => exact hna hfi
  | .holding _, hfi, _ => exact hna hfi
  | .computing looked true, hfi, hj =>
    -- the lock keeps every other call from storing an answer meanwhile
    obtain ⟨hna, hab, hnone⟩ := hfi
    have hse : Computes (s.calls j) v d true := ⟨looked, hj⟩
    have ho : ∀ i, acting = some i → ∀ early, ¬Computes (s.calls i) v d early := by
      rintro i hi early hc
      exact hac (h.computes_unique hse hc ▸ hi.symm)
    refine ⟨?_, fun hpr => ?_, fun k hk => ?_⟩
    · rcases hna.moved hm with hna | hsp
      · exact hna
      · exact absurd hse (hsp.not_early j)
    · rcases hm.saved v d hpr with hb | ⟨i, hi, early, hc, -⟩
      · exact hab hb
      · exact ho i hi early hc
    by_cases hk' : some k = acting
    · rcases hm.leaves k hk'.symm v d hk with hl | ⟨early, hc⟩
      · exact hnone k hl
      · exact ho k hk'.symm early hc
    rw [hm.calls k hk'] at hk
    exact hnone k hk
  | .computing _ false, hfi, _ => exact hm.retired v hfi
  | .releasing _ none, _, _ => trivial
  | .seeding _ none, _, _ => trivial
  | .releasing _ (some _), hfi, _ => exact hra hfi
  | .seeding _ (some _), hfi, _ => exact hra hfi
  | .confirming _, hfi, _ => exact hra hfi
  | .takingBack _, hfi, _ => exact hm.retired v hfi
  | .dropping, hfi, _ => exact Spared.moved hfi hm

lemma Inv.named_moved (hpr : (s'.answers v d).present) : Named κ s' v d ∨ Spared κ s' v d := by
  have hna : Named κ s v d → Named κ s' v d ∨ Spared κ s' v d := fun hna =>
    (hna.moved hm).imp_right fun hsp => hsp.moved hm
  rcases hm.saved v d hpr with hb | ⟨i, hi, early, ⟨looked, hcall⟩, hr⟩
  · rcases h.named hb with h' | hsp
    · exact hna h'
    · exact .inr (hsp.moved hm)
  have hfi := h.fits hcall
  cases early with
  | true => exact hna hfi.1
  | false =>
    refine .inr ⟨hm.retired v hfi, fun j hj => ?_, fun _ => ⟨i, hr rfl⟩⟩
    by_cases hc : some j = acting
    · cases Option.some.inj (hc.trans hi)
      rcases hm.early i hi v d hj with ⟨looked', hc'⟩ | ho
      · cases hcall.symm.trans hc'
      · exact ho hfi
    rw [hm.calls j hc] at hj
    cases h.computes_unique hj ⟨looked, hcall⟩
    exact hc hi.symm

lemma Inv.moved
    (hl : ∀ {i c v d}, s'.calls i = some c → c.locked = some (v, d) → s'.locks v d = some i)
    (he : ∀ {scope v ord}, (VersionsRow.membersOf (s'.rows scope)).get v = some ord →
      κ.scope v = scope ∧ ord = κ.order v) (ht : ∀ {v d}, (v, d) ∈ s'.touched → s'.retired κ v)
    (hi : ∀ i, acting = some i → ∀ c, s'.calls i = some c → CallFits κ s' c) : Inv κ s' where
  locks := hl
  members := he
  touched := ht
  named := h.named_moved hm
  fits {j c} hj := by
    by_cases hc : some j = acting
    · exact hi j hc.symm c hj
    rw [hm.calls j hc] at hj
    cases c with
    | answer => exact h.answerFits_moved hm hj hc
    | retire => exact RetireFits.moved (h.fits hj) hm

omit hm

omit h

section

omit [DecidableEq V]

variable (κ) in
/-- What the step of a call does to the call, from `c` to `c'`. -/
structure CallMoves (s s' : AnswerRun V D S ι) (c c' : Option (AnswerCall V D S)) : Prop where
  early : ∀ v d, Computes c' v d true → Computes c v d true ∨ ¬s.retired κ v
  minded : ∀ v d, Ran c v d false →
    Ran c' v d false ∨ ¬(s'.answers v d).present ∨ ¬s.retired κ v
  leaves : ∀ v d, Leaves c' v d → Leaves c v d ∨ ∃ early, Computes c v d early

variable {c c' : Option (AnswerCall V D S)} {pc pc' : AnswerPc}

def Plain (c : Option (AnswerCall V D S)) : Prop :=
  (∀ v d early, ¬Computes c v d early) ∧ ∀ v d, ¬Leaves c v d

lemma plain_none : Plain (none : Option (AnswerCall V D S)) := by simp [Plain]

lemma plain_retire (scope : S) (pc : RetirePc V D) : Plain (some (.retire scope pc)) := by
  simp [Plain]

lemma plain_answer (hc : ∀ looked early, pc ≠ .computing looked early)
    (hr : pc.ran = none) (hd : pc ≠ .dropping) :
    Plain (some (.answer v d pc) : Option (AnswerCall V D S)) := by
  simp_all [Plain]

lemma CallMoves.of_plain (hc : Plain c) (hc' : Plain c') : CallMoves κ s s' c c' where
  early v d h := absurd h (hc'.1 v d true)
  minded v d h := absurd (.inl ⟨false, h⟩) (hc.2 v d)
  leaves v d h := absurd h (hc'.2 v d)

lemma CallMoves.of_ran (hc : ∀ looked early, pc' ≠ .computing looked early)
    (hr : pc'.ran = pc.ran) (hd : pc' ≠ .dropping) :
    CallMoves κ s s' (some (.answer v d pc)) (some (.answer v d pc')) where
  early v' d' h := by simp [hc] at h
  minded v' d' h := by
    rw [ran_answer] at h ⊢
    exact .inl (hr ▸ h)
  leaves v' d' h := by
    rw [leaves_answer] at h ⊢
    simp_all

end

section

variable [DecidableEq ι]

omit [DecidableEq V] in
@[simp] lemma calls_setCall_self (s : AnswerRun V D S ι) (i : ι)
    (c : Option (AnswerCall V D S)) : (s.setCall i c).calls i = c := Function.update_self ..

omit [DecidableEq V] in
lemma calls_setCall_of_ne {i j : ι} (h : j ≠ i) (s : AnswerRun V D S ι)
    (c : Option (AnswerCall V D S)) : (s.setCall i c).calls j = s.calls j :=
  Function.update_of_ne h ..

variable {i : ι} {c' : Option (AnswerCall V D S)} {t : AnswerRun V D S ι}

lemma Moved.of_calls (hcs : t.calls = s.calls) (hcall : CallMoves κ s t (s.calls i) c')
    (hr : ∀ v, s.retired κ v → t.retired κ v)
    (he : ∀ v, HasVersion κ s v → HasVersion κ t v ∨ ∀ d, Spared κ s v d)
    (hd : ∀ v d, HasDigest κ s v d → HasDigest κ t v d ∨ Spared κ s v d)
    (hsa : ∀ v d, (t.answers v d).present → (s.answers v d).present ∨
      ∃ early, Computes (s.calls i) v d early ∧ (early = false → Ran c' v d false))
    (hl : ∀ v d, (s.answers v d).present → (t.answers v d).present ∨ s.retired κ v) :
    Moved κ (some i) s (t.setCall i c') where
  calls j hj := by rw [calls_setCall_of_ne fun h => hj (congrArg some h), hcs]
  retired := hr
  version := he
  digest := hd
  saved v d h := by
    refine (hsa v d h).imp_right fun ⟨early, hc, hra⟩ => ⟨i, rfl, early, hc, ?_⟩
    rwa [calls_setCall_self]
  lost := hl
  early j hj v d h := by
    cases hj
    rw [calls_setCall_self] at h
    exact hcall.early v d h
  minded j hj v d h := by
    cases hj
    rw [calls_setCall_self]
    exact hcall.minded v d h
  leaves j hj v d h := by
    cases hj
    rw [calls_setCall_self] at h
    exact hcall.leaves v d h

lemma Moved.of_call (hc : t.calls = s.calls) (hr : t.rows = s.rows)
    (hh : t.shards = s.shards) (han : t.answers = s.answers)
    (hcall : CallMoves κ s t (s.calls i) c') : Moved κ (some i) s (t.setCall i c') := by
  refine .of_calls hc hcall (fun v h => ?_) (fun v h => ?_) (fun v d h => ?_)
    (fun v d h => ?_) (fun v d h => ?_)
  · rw [AnswerRun.retired, hr]
    exact h
  · exact .inl (by rwa [HasVersion, hr])
  · exact .inl (by rwa [HasDigest, hh])
  · exact .inl (by rwa [han] at h)
  · exact .inl (by rwa [han])

lemma Inv.of_moved (h : Inv κ s) (hm : Moved κ (some i) s (t.setCall i c'))
    (hcs : t.calls = s.calls) (ho : t.locks = s.locks)
    (hl : ∀ {v d}, c'.bind AnswerCall.locked = some (v, d) →
      (s.calls i).bind AnswerCall.locked = some (v, d))
    (he : ∀ {scope v ord}, (VersionsRow.membersOf (t.rows scope)).get v = some ord →
      κ.scope v = scope ∧ ord = κ.order v) (ht : ∀ {v d}, (v, d) ∈ t.touched → s.retired κ v)
    (hi : ∀ c, c' = some c → CallFits κ (t.setCall i c') c) : Inv κ (t.setCall i c') := by
  refine h.moved hm (fun {j c v d} hj hc => ?_) he
    (fun hmem => hm.retired _ (ht hmem)) fun j hj c hc => ?_
  · show t.locks v d = some j
    rw [ho]
    obtain ⟨rfl, rfl⟩ | ⟨-, hj⟩ := of_update_eq hj
    · have hold := hl (v := v) (d := d) hc
      obtain ⟨c₀, hc₀, hold⟩ := Option.bind_eq_some_iff.1 hold
      exact h.locks hc₀ hold
    exact h.locks (hcs ▸ hj) hc
  cases hj
  rw [calls_setCall_self] at hc
  exact hi c hc

lemma Inv.of_call (h : Inv κ s) (hcall : CallMoves κ s s (s.calls i) c')
    (hl : ∀ {v d}, c'.bind AnswerCall.locked = some (v, d) →
      (s.calls i).bind AnswerCall.locked = some (v, d))
    (hi : ∀ c, c' = some c → CallFits κ (s.setCall i c') c) : Inv κ (s.setCall i c') :=
  h.of_moved (.of_call rfl rfl rfl rfl hcall) rfl rfl hl h.members h.touched hi

end

section

variable [DecidableEq D] [DecidableEq S] [DecidableEq ι] {i : ι} {c' : Option (AnswerCall V D S)}

omit [DecidableEq D] in
lemma Moved.of_row {row : Option (VersionsRow V)} (hcall : CallMoves κ s s (s.calls i) c')
    (hr : ∀ ord, VersionsRow.refuses (s.rows scope) ord → VersionsRow.refuses row ord)
    (he : ∀ v, κ.scope v = scope → HasVersion κ s v →
      (VersionsRow.membersOf row).get v = some (κ.order v) ∨ ∀ d, Spared κ s v d) :
    Moved κ (some i) s ((s.setRow scope row).setCall i c') := by
  refine .of_calls rfl { hcall with } (fun v h => ?_) (fun v h => ?_)
    (fun v d h => .inl h) (fun v d h => .inl h) (fun v d h => .inl h)
  · rw [AnswerRun.retired, rows_setRow]
    split_ifs with hscope
    · exact hr _ (hscope ▸ h)
    · exact h
  rw [HasVersion, rows_setRow]
  split_ifs with hscope
  · exact he v hscope h
  · exact .inl h

omit [DecidableEq D] [DecidableEq ι] in
lemma members_setRow {row : Option (VersionsRow V)} (h : Inv κ s)
    (hrow : ∀ {v ord}, (VersionsRow.membersOf row).get v = some ord →
      κ.scope v = scope ∧ ord = κ.order v) {sco' : S} {v : V} {ord : Int}
    (hg : (VersionsRow.membersOf ((s.setRow scope row).rows sco')).get v = some ord) :
    κ.scope v = sco' ∧ ord = κ.order v := by
  rw [rows_setRow] at hg
  split_ifs at hg with hscope
  · exact hscope ▸ hrow hg
  · exact h.members hg

omit [DecidableEq D] [DecidableEq S] in
lemma Moved.of_shard {v : V} {x : Fin 16} {row : Option (List D)}
    (hcall : CallMoves κ s s (s.calls i) c')
    (hd : ∀ d, κ.shard d = x → HasDigest κ s v d → d ∈ row.getD [] ∨ Spared κ s v d) :
    Moved κ (some i) s ((s.setShard v x row).setCall i c') := by
  refine .of_calls rfl { hcall with } (fun v h => h)
    (fun v h => .inl h) (fun v' d h => ?_) (fun v d h => .inl h) (fun v d h => .inl h)
  rw [HasDigest, shards_setShard]
  split_ifs with hkey
  · obtain ⟨rfl, hx⟩ := hkey
    exact hd d hx h
  · exact .inl h

end

end AnswerRun

end ThreeTears
