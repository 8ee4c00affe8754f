import ThreeTears.Collections.VersionsRow
import ThreeTears.Lib.StepSystem
import ThreeTears.Lib.Families

/-!
# Floors of a scope that comes and goes

The replicas of one scope answer at its versions, announce new ones, retire older ones and forget
the scope once nobody announces it. A forget deletes the announced-version record it read, or takes
its key with a marker, and raises the floor; when an announce got in it puts the floor back to what
it found, if the floor is still the one it set. Every change is one compare-and-set, and a call can
be cut off between any two of them.
-/

namespace ThreeTears

open Function List VersionsRow Option

structure Announced (V : Type*) where
  latest : V × Int
  previous : Option (V × Int)
  deriving DecidableEq

inductive ScopeGate (V ι : Type*)
  | record (announced : Announced V)
  | forgetting (marker : ι)
  deriving DecidableEq

/-- How a forget holds the key: the order of the record it read, its own marker, or neither since
the marker was replaced. -/
inductive GateHold
  | record (order : Int)
  | marker
  | lost
  deriving DecidableEq

/-- Where a `forget` stands. -/
inductive ForgetPc (V : Type*)
  | reading
  | dropping (seen : Announced V)
  | missed (order : Int)
  | taking
  | listing (hold : GateHold)
  | raising (hold : GateHold) (bound : Int)
  | looking (hold : GateHold) (raised : VersionsRow.Raised V)
  | clearing (hold : GateHold) (raised : VersionsRow.Raised V)
  | lookingAgain (hold : GateHold) (raised : VersionsRow.Raised V)
  | remaining (hold : GateHold) (raised : Option (VersionsRow.Raised V))
  | leaving (hold : GateHold) (raised : Option (VersionsRow.Raised V)) (retired : Bool)
  | last (hold : GateHold) (raised : Option (VersionsRow.Raised V)) (retired : Bool)
  | lowering (raised : VersionsRow.Raised V)

/-- Where a call on the scope stands. `alone`: a retirement raised the floor while no forget at work
had raised it past what the retirement asks for. -/
inductive ScopeCall (V : Type*)
  | answering (version : V) (order : Int)
  | announcing (version : V) (order : Int)
  | retiring (order : Int)
  | clearing (order : Int) (taken : List (V × Int)) (alone : Bool)
  | forget (pc : ForgetPc V)
  | done

/-- A change of the floor by a call: by a forget, or by a retirement. -/
structure FloorAsk (ι : Type*) where
  call : ι
  isForget : Bool
  floor : Int
  deriving DecidableEq

/-- What calls came to: a retirement, a forget that was not overtaken with its answer, and one
that was, with the floor it left. -/
inductive ScopeOutcome (ι : Type*)
  | retired (order : Int) (alone : Bool)
  | forgot (call : ι) (retired : Bool)
  | overtaken (call : ι) (left : Option Int)
  deriving DecidableEq

/-- One scope: its versions row, the key of its record and the calls, with the changes of the floor,
the raises of the forgets that have not ended, and the outcomes. -/
structure ScopeRun (V ι : Type*) where
  row : Option (VersionsRow V)
  gate : Option (ScopeGate V ι)
  calls : ι → Option (ScopeCall V)
  asks : List (FloorAsk ι)
  rising : List (ι × VersionsRow.Raised V)
  returned : List (ScopeOutcome ι)

/-- A call starts, takes its next step, clears one version it took, or is cut off. -/
inductive ScopeAct (V ι : Type*)
  | answer (i : ι) (version : V) (order : Int)
  | announce (i : ι) (version : V) (order : Int)
  | retire (i : ι) (order : Int)
  | forget (i : ι)
  | go (i : ι)
  | clear (i : ι) (version : V) (older : Int)
  | cut (i : ι)

namespace ScopeGate

variable {V ι : Type*}

/-- `_announced_from`. -/
def announced : Option (ScopeGate V ι) → Option (Announced V)
  | some (record a) => some a
  | _ => none

/-- `rise` of `announce`. -/
def rise (version : V) (order : Int) (gate : Option (ScopeGate V ι)) : Option (ScopeGate V ι) :=
  match announced gate with
  | some found =>
    if found.latest.2 ≥ order then gate else some (record ⟨(version, order), some found.latest⟩)
  | none => some (record ⟨(version, order), none⟩)

variable [DecidableEq ι]

def overtaken (i : ι) (hold : GateHold) : Option (ScopeGate V ι) → Bool
  | none => false
  | some (record _) => true
  | some (forgetting marker) => hold = .marker ∧ marker ≠ i

end ScopeGate

namespace ScopeRun

variable {V ι : Type*} [DecidableEq V] [DecidableEq ι]

def start : ScopeRun V ι where
  row := none
  gate := none
  calls _ := none
  asks := []
  rising := []
  returned := []

variable (s : ScopeRun V ι)

def setCall (i : ι) (call : ScopeCall V) : ScopeRun V ι :=
  { s with calls := update s.calls i (some call) }

def goTo (i : ι) (pc : ForgetPc V) : ScopeRun V ι := s.setCall i (.forget pc)

def finish (i : ι) (outcomes : List (ScopeOutcome ι)) : ScopeRun V ι :=
  { s with
    calls := update s.calls i (some .done)
    rising := s.rising.filter (·.1 ≠ i)
    returned := outcomes ++ s.returned }

def leave (i : ι) : ScopeRun V ι := s.finish i [.overtaken i (VersionsRow.floorOf s.row)]

/-- `_raise_floor` by a call. -/
def raise (i : ι) (isForget : Bool) (order : Int) : ScopeRun V ι :=
  let raised := (VersionsRow.raiseFloor order s.row).1
  { s with
    row := (VersionsRow.raiseFloor order s.row).2
    asks := if raised.before = some raised.after then s.asks
      else ⟨i, isForget, raised.after⟩ :: s.asks }

def bound (hold : GateHold) (members : Dict V Int) : Option Int :=
  match hold with
  | .record order => some order
  | _ => (members.entries.map Prod.snd).max?

/-- Whether no forget at work has raised the floor past what a retirement below this order asks
for. -/
def isAlone (order : Int) : Bool := s.rising.all fun e => !e.2.crosses (order - 1)

/-- The next step of a `forget`. -/
def forgetStep (i : ι) : ForgetPc V → ScopeRun V ι
  | .reading =>
    match ScopeGate.announced s.gate with
    | some seen => s.goTo i (.dropping seen)
    | none => s.goTo i .taking
  | .dropping seen =>
    if s.gate = some (.record seen) then
      { s with gate := none }.goTo i (.listing (.record seen.latest.2))
    else s.goTo i (.missed seen.latest.2)
  | .missed order =>
    if ScopeGate.overtaken i (.record order) s.gate then s.leave i
    else s.goTo i (.listing (.record order))
  | .taking =>
    -- the marker of another forget is replaced like an absent record
    match ScopeGate.announced s.gate with
    | some _ => s.leave i
    | none => { s with gate := some (.forgetting i) }.goTo i (.listing .marker)
  | .listing hold =>
    match s.row with
    | none => s.goTo i (.leaving hold none true)
    | some row =>
      match bound hold row.members with
      | none => s.goTo i (.remaining hold none)
      | some bound => s.goTo i (.raising hold bound)
  | .raising hold bound =>
    let raised := (VersionsRow.raiseFloor (bound + 1) s.row).1
    { s.raise i true (bound + 1) with rising := (i, raised) :: s.rising }.goTo i
      (.looking hold raised)
  | .looking hold raised =>
    if ScopeGate.overtaken i hold s.gate then s.goTo i (.lowering raised)
    else s.goTo i (.clearing hold raised)
  | .clearing hold raised => s.goTo i (.lookingAgain hold raised)
  | .lookingAgain hold raised =>
    if ScopeGate.overtaken i hold s.gate then s.goTo i (.lowering raised)
    else s.goTo i (.remaining hold (some raised))
  | .remaining hold raised =>
    s.goTo i (.leaving hold raised (VersionsRow.membersOf s.row).entries.isEmpty)
  | .leaving hold raised retired =>
    if hold = .marker then
      if s.gate = some (.forgetting i) then
        { s with gate := none }.goTo i (.last .marker raised retired)
      else s.goTo i (.last .lost raised retired)
    else s.goTo i (.last hold raised retired)
  | .last hold raised retired =>
    if hold = .lost ∨ ScopeGate.overtaken i hold s.gate then
      match raised with
      | some raised => s.goTo i (.lowering raised)
      | none => s.leave i
    else s.finish i [.forgot i retired]
  | .lowering raised =>
    { s with row := VersionsRow.lowerFloor (some raised.after) raised.before s.row }.leave i

def callStep (i : ι) : ScopeCall V → Option (ScopeRun V ι)
  | .answering version order =>
    some ({ s with row := (VersionsRow.addVersion version order s.row).2 }.setCall i .done)
  | .announcing version order =>
    some ({ s with gate := ScopeGate.rise version order s.gate }.setCall i .done)
  | .retiring order =>
    some ((s.raise i false order).setCall i
      (.clearing order (VersionsRow.raiseFloor order s.row).1.taken (s.isAlone order)))
  | .clearing order _ alone => some (s.finish i [.retired order alone])
  | .forget pc => some (s.forgetStep i pc)
  | .done => none

def clears (i : ι) : List (V × Int) :=
  match s.calls i with
  | some (.clearing _ taken _) => taken
  | some (.forget (.clearing _ raised)) => raised.taken
  | _ => []

def opens (i : ι) (call : ScopeCall V) : Option (ScopeRun V ι) :=
  if (s.calls i).isNone then some (s.setCall i call) else none

def step : ScopeAct V ι → Option (ScopeRun V ι)
  | .answer i version order => s.opens i (.answering version order)
  | .announce i version order => s.opens i (.announcing version order)
  | .retire i order => s.opens i (.retiring order)
  | .forget i => s.opens i (.forget .reading)
  | .go i => (s.calls i).bind (s.callStep i)
  | .clear i version older =>
    if (version, older) ∈ s.clears i then
      some { s with row := VersionsRow.forgetVersion version older s.row }
    else none
  | .cut i => if (s.calls i).isSome then some (s.finish i []) else none

end ScopeRun

def scopeFloors (V ι : Type*) [DecidableEq V] [DecidableEq ι] :
    StepSystem (ScopeRun V ι) (ScopeAct V ι) := ⟨ScopeRun.step⟩

/-! ### What a call has done to the floor -/

def ForgetPc.raise {V : Type*} : ForgetPc V → Option (VersionsRow.Raised V)
  | .looking _ raised | .clearing _ raised | .lookingAgain _ raised | .lowering raised => raised
  | .remaining _ raised | .leaving _ raised _ | .last _ raised _ => raised
  | _ => none

namespace ScopeCall

variable {V : Type*}

def raise : ScopeCall V → Option (VersionsRow.Raised V)
  | .forget pc => pc.raise
  | _ => none

def isEarly : ScopeCall V → Bool
  | .clearing .. | .done => false
  | .forget pc => pc.raise.isNone
  | _ => true

end ScopeCall

namespace ScopeRun

variable {V ι : Type*} [DecidableEq ι]

section Invariant

variable (s : ScopeRun V ι)

/-- A retirement below this order raised the floor alone. -/
def Kept (order : Int) : Prop :=
  .retired order true ∈ s.returned ∨ ∃ i taken, s.calls i = some (.clearing order taken true)

def Asked (floor : Int) : Prop := ∃ ask ∈ s.asks, ask.floor = floor

/-- Some call other than `i` changed the floor to this one. -/
def AskedByOther (i : ι) (floor : Int) : Prop := ∃ ask ∈ s.asks, ask.call ≠ i ∧ ask.floor = floor

structure Pending (i : ι) (raised : VersionsRow.Raised V) : Prop where
  rising : (i, raised) ∈ s.rising
  asked : ∀ floor, raised.before = some floor → s.Asked floor
  own : ∀ ask ∈ s.asks, ask.call = i → ask.floor = raised.after ∧ raised.before ≠ some raised.after
  kept : ∀ order, s.Kept order → ¬ raised.crosses (order - 1)

structure Inv : Prop where
  asked : ∀ floor, VersionsRow.floorOf s.row = some floor → s.Asked floor
  kept : ∀ order, s.Kept order →
    ∃ floor, VersionsRow.floorOf s.row = some floor ∧ order - 1 ≤ floor
  early : ∀ i, (s.calls i).all ScopeCall.isEarly → ∀ ask ∈ s.asks, ask.call ≠ i
  pending : ∀ i call raised, s.calls i = some call → call.raise = some raised →
    s.Pending i raised
  overtaken : ∀ i floor, .overtaken i (some floor) ∈ s.returned → s.AskedByOther i floor

end Invariant

variable {s s' : ScopeRun V ι} {i j : ι} {call : ScopeCall V} {order floor : Int}

omit [DecidableEq ι] in
lemma Asked.mono (h : s.Asked floor) (has : s.asks ⊆ s'.asks) : s'.Asked floor := by
  obtain ⟨ask, hk, hl⟩ := h
  exact ⟨ask, has hk, hl⟩

omit [DecidableEq ι] in
lemma AskedByOther.mono (h : s.AskedByOther i floor) (has : s.asks ⊆ s'.asks) :
    s'.AskedByOther i floor := by
  obtain ⟨ask, hk, hcall, hl⟩ := h
  exact ⟨ask, has hk, hcall, hl⟩

omit [DecidableEq ι] in
lemma Asked.other (h : s.Asked floor) (hown : ∀ ask ∈ s.asks, ask.call = i → ask.floor ≠ floor) :
    s.AskedByOther i floor := by
  obtain ⟨ask, has, hl⟩ := h
  exact ⟨ask, has, fun hcall => hown ask has hcall hl, hl⟩

lemma Kept.of_update (h : s'.Kept order) (hc : s'.calls = update s.calls i (some call))
    (hcall : ∀ taken, call ≠ .clearing order taken true)
    (hr : .retired order true ∈ s'.returned → s.Kept order) : s.Kept order := by
  rcases h with h | ⟨j, taken, hj⟩
  · exact hr h
  rw [hc] at hj
  obtain ⟨-, ⟨⟩⟩ | ⟨-, hj⟩ := of_update_eq hj
  · exact absurd rfl (hcall taken)
  · exact .inr ⟨j, taken, hj⟩

/-! ### Moves that leave the floor -/

/-- A move of a call that neither raises the floor nor puts it back. -/
structure Moved (s s' : ScopeRun V ι) (i : ι) (call : ScopeCall V) : Prop where
  calls : s'.calls = update s.calls i (some call)
  floor : VersionsRow.floorOf s'.row = VersionsRow.floorOf s.row
  asks : s'.asks = s.asks
  rising : ∀ e ∈ s.rising, e.1 = i ∨ e ∈ s'.rising
  raise : ∀ raised, call.raise = some raised →
    (∃ old, s.calls i = some old ∧ old.raise = some raised) ∧ s'.rising = s.rising
  early : call.isEarly → (s.calls i).all ScopeCall.isEarly
  kept : ∀ order, s'.Kept order → s.Kept order
  overtaken : ∀ j floor, .overtaken j (some floor) ∈ s'.returned →
    .overtaken j (some floor) ∈ s.returned ∨ s.AskedByOther j floor

lemma Moved.subset (h : Moved s s' i call) : s.asks ⊆ s'.asks := by
  rw [h.asks]
  exact List.Subset.refl _

theorem Inv.moved (h : s.Inv) (hm : Moved s s' i call) : s'.Inv where
  asked floor hl := by
    rw [hm.floor] at hl
    exact (h.asked floor hl).mono hm.subset
  kept order hk := by
    rw [hm.floor]
    exact h.kept order (hm.kept order hk)
  early j hj := by
    rw [hm.calls, update_apply] at hj
    rw [hm.asks]
    split_ifs at hj with hi
    · subst hi
      exact h.early j (hm.early hj)
    · exact h.early j hj
  pending j c raised hj hra := by
    have hold : (∃ old, s.calls j = some old ∧ old.raise = some raised) ∧
        ((j, raised) ∈ s.rising → (j, raised) ∈ s'.rising) := by
      rw [hm.calls] at hj
      obtain ⟨rfl, ⟨⟩⟩ | ⟨hi, hj⟩ := of_update_eq hj
      · obtain ⟨hold, hr⟩ := hm.raise raised hra
        exact ⟨hold, fun hmem => hr ▸ hmem⟩
      · exact ⟨⟨c, hj, hra⟩, fun hmem => (hm.rising _ hmem).resolve_left hi⟩
    obtain ⟨⟨old, hcall, hold⟩, hr⟩ := hold
    have he := h.pending j old raised hcall hold
    exact ⟨hr he.rising, fun floor hl => (he.asked floor hl).mono hm.subset,
      fun ask has => he.own ask (hm.asks ▸ has),
      fun order hk => he.kept order (hm.kept order hk)⟩
  overtaken j floor hj := by
    refine AskedByOther.mono ?_ hm.subset
    exact (hm.overtaken j floor hj).elim (h.overtaken j floor) id

/-! ### Raising the floor -/

structure Raises (s s' : ScopeRun V ι) (i : ι) (isForget : Bool) (order : Int)
    (call : ScopeCall V) : Prop where
  calls : s'.calls = update s.calls i (some call)
  row : s'.row = (VersionsRow.raiseFloor order s.row).2
  asks : s'.asks = (s.raise i isForget order).asks
  returned : s'.returned = s.returned
  rising : s.rising ⊆ s'.rising
  raise : ∀ raised, call.raise = some raised →
    raised = (VersionsRow.raiseFloor order s.row).1 ∧ (i, raised) ∈ s'.rising
  late : call.isEarly = false
  kept : ∀ order', s'.Kept order' →
    s.Kept order' ∨ order' = order ∧ s.isAlone order ∧ call.raise = none

variable {isForget : Bool}

omit [DecidableEq ι] in
lemma mem_asks_raise {ask : FloorAsk ι} : ask ∈ (s.raise i isForget order).asks ↔ ask ∈ s.asks ∨
      floorOf s.row ≠ some (raiseFloor order s.row).1.after ∧
        ask = ⟨i, isForget, (raiseFloor order s.row).1.after⟩ := by
  have hb : (raiseFloor order s.row).1.before = floorOf s.row := rfl
  simp only [raise, hb]
  split_ifs with h
  · simp [h]
  · simp [h, or_comm]

lemma Raises.mem_asks (h : Raises s s' i isForget order call)
    {ask : FloorAsk ι} (has : ask ∈ s'.asks) : ask ∈ s.asks ∨
      floorOf s.row ≠ some (raiseFloor order s.row).1.after ∧
        ask = ⟨i, isForget, (raiseFloor order s.row).1.after⟩ :=
  mem_asks_raise.1 (h.asks ▸ has)

lemma Raises.subset (h : Raises s s' i isForget order call) : s.asks ⊆ s'.asks := by
  rw [h.asks]
  exact fun ask has => mem_asks_raise.2 (.inl has)

lemma Inv.pending_raises (h : s.Inv) (he : (s.calls i).all ScopeCall.isEarly)
    (hr : Raises s s' i isForget order call)
    (hi : (i, (VersionsRow.raiseFloor order s.row).1) ∈ s'.rising)
    (hsome : call.raise ≠ none) : s'.Pending i (VersionsRow.raiseFloor order s.row).1 where
  rising := hi
  asked floor hl := (h.asked floor hl).mono hr.subset
  own ask has hcall := by
    rcases hr.mem_asks has with hold | ⟨hne, rfl⟩
    · exact absurd hcall (h.early i he ask hold)
    · exact ⟨rfl, hne⟩
  kept ord' hk := by
    rcases hr.kept ord' hk with hold | ⟨-, -, hnone⟩
    · obtain ⟨floor, hl, hle⟩ := h.kept ord' hold
      exact VersionsRow.Raised.not_crosses hl hle
    · exact absurd hnone hsome

variable {raised : Raised V}

omit [DecidableEq ι] in
lemma not_crosses_of_isAlone (h : s.isAlone order)
    (hmem : (j, raised) ∈ s.rising) : ¬ raised.crosses (order - 1) := by
  simpa using all_eq_true.1 h _ hmem

lemma Pending.raises (h : s.Pending j raised)
    (hr : Raises s s' i isForget order call) (he : j ≠ i) : s'.Pending j raised where
  rising := hr.rising h.rising
  asked floor hl := (h.asked floor hl).mono hr.subset
  own ask has hcall := by
    rcases hr.mem_asks has with hold | ⟨-, rfl⟩
    · exact h.own ask hold hcall
    · exact absurd hcall.symm he
  kept ord' hk := by
    rcases hr.kept ord' hk with hold | ⟨rfl, hal, -⟩
    · exact h.kept ord' hold
    · exact not_crosses_of_isAlone hal h.rising

theorem Inv.raises (h : s.Inv) (he : (s.calls i).all ScopeCall.isEarly)
    (hr : Raises s s' i isForget order call) : s'.Inv where
  asked floor hl := by
    rw [hr.row, floorOf_raiseFloor, some.injEq] at hl
    subst hl
    by_cases hsa : VersionsRow.floorOf s.row =
        some (VersionsRow.raiseFloor order s.row).1.after
    · exact (h.asked _ hsa).mono hr.subset
    refine ⟨⟨i, isForget, _⟩, ?_, rfl⟩
    rw [hr.asks]
    exact mem_asks_raise.2 (.inr ⟨hsa, rfl⟩)
  kept ord' hk := by
    rw [hr.row, floorOf_raiseFloor]
    refine ⟨_, rfl, ?_⟩
    rcases hr.kept ord' hk with hold | ⟨rfl, -⟩
    · obtain ⟨floor, hl, hle⟩ := h.kept ord' hold
      exact hle.trans (before_le_after hl order)
    · exact le_after _ _
  early j hj ask has := by
    rw [hr.calls, update_apply] at hj
    split_ifs at hj with hi
    · rw [all_some, hr.late] at hj
      cases hj
    rcases hr.mem_asks has with hold | ⟨-, rfl⟩
    · exact h.early j hj ask hold
    · exact fun hij => hi hij.symm
  pending j c raised hj hra := by
    rw [hr.calls] at hj
    obtain ⟨rfl, ⟨⟩⟩ | ⟨hi, hj⟩ := of_update_eq hj
    · obtain ⟨rfl, hri⟩ := hr.raise raised hra
      exact h.pending_raises he hr hri (by rw [hra]; nofun)
    · exact (h.pending j c raised hj hra).raises hr hi
  overtaken j floor hj := by
    rw [hr.returned] at hj
    exact (h.overtaken j floor hj).mono hr.subset

/-! ### Putting the floor back -/

lemma kept_of_finish {ou : List (ScopeOutcome ι)} (h : (s.finish i ou).Kept order)
    (ho : .retired order true ∈ ou → s.Kept order) : s.Kept order := by
  refine h.of_update rfl (fun _ => nofun) fun hmem => ?_
  exact (mem_append.1 hmem).elim ho .inl

section

variable (h : s.Inv)
include h

omit [DecidableEq ι] in
lemma Inv.asked_lowered (hcall : s.calls i = some (.forget (.lowering raised))) (hl : floorOf
      (lowerFloor (some raised.after) raised.before s.row) = some floor) :
    s.AskedByOther i floor := by
  have he := h.pending i _ raised hcall rfl
  rw [floorOf_lowerFloor] at hl
  split_ifs at hl with haf
  · refine (he.asked floor hl).other fun ask has hown hq => ?_
    obtain ⟨has, hne⟩ := he.own ask has hown
    exact hne (hl.trans (congrArg some (hq.symm.trans has)))
  refine (h.asked floor hl).other fun ask has hown hq => haf ?_
  exact hl.trans (congrArg some (hq.symm.trans (he.own ask has hown).1))

theorem Inv.lower (hcall : s.calls i = some (.forget (.lowering raised))) : (leave { s with
      row := lowerFloor (some raised.after) raised.before s.row } i).Inv where
  asked floor hl := by
    obtain ⟨ask, has, -, hq⟩ := h.asked_lowered hcall hl
    exact ⟨ask, has, hq⟩
  kept order hk := by
    have hold : s.Kept order := kept_of_finish hk (by simp)
    change ∃ floor, floorOf
      (lowerFloor (some raised.after) raised.before s.row) = some floor ∧ _
    rw [floorOf_lowerFloor]
    obtain ⟨floor, hl, hle⟩ := h.kept order hold
    split_ifs with haf
    · rw [hl, some.injEq] at haf
      exact Raised.exists_before
        ((h.pending i _ raised hcall rfl).kept order hold) (haf ▸ hle)
    · exact ⟨floor, hl, hle⟩
  early j hj := by
    apply h.early j
    simp only [leave, finish, update_apply] at hj
    split_ifs at hj with hi
    · cases hj
    · exact hj
  pending j c raised' hj hr := by
    obtain ⟨-, ⟨⟩⟩ | ⟨hi, hj⟩ := of_update_eq hj
    · cases hr
    have he := h.pending j c raised' hj hr
    refine ⟨?_, he.asked, he.own, fun order hk => ?_⟩
    · exact mem_filter.2 ⟨he.rising, by simpa using hi⟩
    · exact he.kept order (kept_of_finish hk (by simp))
  overtaken j floor hj := by
    rcases mem_append.1 hj with hnew | hold
    · rw [mem_singleton, ScopeOutcome.overtaken.injEq] at hnew
      obtain ⟨rfl, hl⟩ := hnew
      exact h.asked_lowered hcall hl.symm
    · exact h.overtaken j floor hold

lemma Inv.setCall {row : Option (VersionsRow V)} {gate : Option (ScopeGate V ι)}
    (hrow : VersionsRow.floorOf row = VersionsRow.floorOf s.row)
    (hr : ∀ raised, call.raise = some raised →
      ∃ old, s.calls i = some old ∧ old.raise = some raised)
    (he : call.isEarly → (s.calls i).all ScopeCall.isEarly)
    (hc : ∀ order taken, call ≠ .clearing order taken true) :
    (setCall { s with row := row, gate := gate } i call).Inv := by
  refine h.moved (i := i) ⟨rfl, hrow, rfl, fun _ => .inr, ?_, he, ?_, ?_⟩
  · exact fun raised hq => ⟨hr raised hq, rfl⟩
  · exact fun order hk => hk.of_update rfl (hc order) .inl
  · exact fun _ _ => .inl

lemma Inv.goTo {gate : Option (ScopeGate V ι)} {pc old : ForgetPc V}
    (hcall : s.calls i = some (.forget old)) (hr : pc.raise = old.raise) :
    (ScopeRun.goTo { s with gate := gate } i pc).Inv := by
  refine Inv.setCall h rfl (fun raised hq => ?_) (fun he => ?_) (fun _ _ => nofun)
  · exact ⟨_, hcall, hr.symm.trans hq⟩
  rw [hcall, all_some]
  exact (congrArg isNone hr).symm.trans he

lemma Inv.finish {ou : List (ScopeOutcome ι)}
    (hk : ∀ order, .retired order true ∈ ou → s.Kept order)
    (ho : ∀ j floor, .overtaken j (some floor) ∈ ou → s.AskedByOther j floor) :
    (s.finish i ou).Inv := by
  refine h.moved (i := i) ⟨rfl, rfl, rfl, fun j hj => ?_, nofun, nofun, ?_, ?_⟩
  · by_cases hi : j.1 = i
    · exact .inl hi
    · exact .inr (mem_filter.2 ⟨hj, by simpa using hi⟩)
  · exact fun order h' => kept_of_finish h' (hk order)
  intro j floor hj
  exact (mem_append.1 hj).symm.imp id (ho j floor)

lemma Inv.leave (he : (s.calls i).all ScopeCall.isEarly) : (s.leave i).Inv := by
  refine h.finish (by simp) fun j floor hj => ?_
  rw [mem_singleton, ScopeOutcome.overtaken.injEq] at hj
  obtain ⟨rfl, hl⟩ := hj
  refine (h.asked floor hl.symm).other fun ask has hcall => ?_
  exact absurd hcall (h.early j he ask has)

lemma Inv.raising [DecidableEq V] {hold : GateHold} {bound : Int}
    (hcall : s.calls i = some (.forget (.raising hold bound))) :
    (s.forgetStep i (.raising hold bound)).Inv := by
  refine h.raises (i := i) (by rw [hcall]; rfl)
    ⟨rfl, rfl, rfl, rfl, subset_cons_self _ _, fun raised he => ?_, rfl, fun _ hk => ?_⟩
  · cases he
    exact ⟨rfl, mem_cons_self⟩
  · exact .inl (hk.of_update rfl (fun _ => nofun) .inl)

lemma Inv.retiring (hcall : s.calls i = some (.retiring order)) : ((s.raise i false order).setCall i
      (.clearing order (VersionsRow.raiseFloor order s.row).1.taken (s.isAlone order))).Inv := by
  refine h.raises (i := i) (by rw [hcall]; rfl)
    ⟨rfl, rfl, rfl, rfl, List.Subset.refl _, nofun, rfl, fun ord' hk => ?_⟩
  rcases hk with hr | ⟨j, taken, hj⟩
  · exact .inl (.inl hr)
  obtain ⟨-, hj⟩ | ⟨-, hj⟩ := of_update_eq hj
  · rw [some.injEq, ScopeCall.clearing.injEq] at hj
    exact .inr ⟨hj.1.symm, hj.2.2, rfl⟩
  · exact .inl (.inr ⟨j, taken, hj⟩)

theorem Inv.forgetStep [DecidableEq V] {pc : ForgetPc V} (hcall : s.calls i = some (.forget pc)) :
    (s.forgetStep i pc).Inv := by
  have he (hr : pc.raise = none) : (s.calls i).all ScopeCall.isEarly := by
    rw [hcall, all_some]
    exact congrArg isNone hr
  cases pc with try simp only [ScopeRun.forgetStep]
  | reading => split <;> exact h.goTo hcall rfl
  | dropping seen | looking hold raised | lookingAgain hold raised | leaving hold raised retired =>
    split_ifs <;> exact h.goTo hcall rfl
  | missed =>
    split_ifs
    · exact h.leave (he rfl)
    · exact h.goTo hcall rfl
  | taking =>
    split
    · exact h.leave (he rfl)
    · exact h.goTo hcall rfl
  | listing =>
    split
    · exact h.goTo hcall rfl
    · split <;> exact h.goTo hcall rfl
  | raising => exact h.raising hcall
  | clearing hold raised | remaining hold raised => exact h.goTo hcall rfl
  | last _ raised =>
    split_ifs
    · cases raised with
      | none => exact h.leave (he rfl)
      | some => exact h.goTo hcall rfl
    · exact h.finish (by simp) (by simp)
  | lowering => exact h.lower hcall

theorem Inv.callStep [DecidableEq V] (hcall : s.calls i = some call)
    (ht : s.callStep i call = some s') : s'.Inv := by
  cases call with (simp only [ScopeRun.callStep, some.injEq] at ht; try subst ht)
  | answering => exact h.setCall (floorOf_addVersion ..) nofun nofun fun _ _ => nofun
  | announcing => exact h.setCall rfl nofun nofun fun _ _ => nofun
  | retiring => exact h.retiring hcall
  | clearing _ taken =>
    refine h.finish (fun ord' hmem => ?_) (by simp)
    rw [mem_singleton, ScopeOutcome.retired.injEq] at hmem
    obtain ⟨rfl, rfl⟩ := hmem
    exact .inr ⟨i, taken, hcall⟩
  | forget => exact h.forgetStep hcall
  | done => cases ht

lemma Inv.opens (he : call.isEarly) (hr : call.raise = none)
    (ht : s.opens i call = some s') : s'.Inv := by
  simp only [ScopeRun.opens] at ht
  split_ifs at ht with hnone
  cases ht
  rw [isNone_iff_eq_none] at hnone
  refine h.setCall rfl ?_ (fun _ => by rw [hnone]; rfl) ?_
  · rw [hr]
    nofun
  rintro order taken rfl
  cases he

omit [DecidableEq ι] in
lemma Inv.setRow {row : Option (VersionsRow V)}
    (hrow : floorOf row = floorOf s.row) : Inv { s with row := row } where
  __ := h
  asked floor hl := h.asked floor (hrow.symm.trans hl)
  kept order hk := by
    obtain ⟨floor, hl, hle⟩ := h.kept order hk
    exact ⟨floor, hrow.trans hl, hle⟩
  pending i call raised hcall hr := by
    have he := h.pending i call raised hcall hr
    exact { he with }

theorem Inv.step [DecidableEq V] {a : ScopeAct V ι} (ht : s.step a = some s') : s'.Inv := by
  cases a with
  | answer i ver order | announce i ver order | retire i order | forget i =>
    exact h.opens rfl rfl ht
  | go =>
    rw [ScopeRun.step, bind_eq_some_iff] at ht
    obtain ⟨call, hcall, ht⟩ := ht
    exact h.callStep hcall ht
  | clear =>
    simp only [ScopeRun.step] at ht
    split_ifs at ht
    cases ht
    exact h.setRow (floorOf_forgetVersion ..)
  | cut =>
    simp only [ScopeRun.step] at ht
    split_ifs at ht
    cases ht
    exact h.finish (by simp) (by simp)

end

end ScopeRun

namespace ScopeRun

variable {V ι : Type*}

lemma inv_start : (start : ScopeRun V ι).Inv where
  asked _ := nofun
  kept order hk := by
    rcases hk with hmem | ⟨i, taken, hcall⟩
    · cases hmem
    · cases hcall
  early _ _ _ := nofun
  pending _ _ _ := nofun
  overtaken _ _ := nofun

variable [DecidableEq V] [DecidableEq ι] {s : ScopeRun V ι}

theorem Inv.run {as : List (ScopeAct V ι)} (hr : (scopeFloors V ι).run start as = some s) : s.Inv :=
  StepSystem.run_invariant _ (I := Inv) (fun _ _ _ h ht => h.step ht) inv_start hr

/-! ### The floors of a run -/

/-- Below a retirement that did not find the floor raised past it by a forget still at work no
version is recorded again, and whatever the floor an overtaken forget leaves refuses, another call
asked for. -/
theorem floors_kept_asked {as : List (ScopeAct V ι)}
    (hrun : (scopeFloors V ι).run start as = some s) :
    (∀ order, .retired order true ∈ s.returned → ∀ version order', order' < order →
      VersionsRow.addVersion version order' s.row = (true, s.row)) ∧
    ∀ i left, .overtaken i (some left) ∈ s.returned → ∀ order, order ≤ left →
      ∃ ask ∈ s.asks, ask.call ≠ i ∧ ask.floor = left ∧ order ≤ ask.floor := by
  have hi := Inv.run hrun
  refine ⟨fun order he version order' hlt => ?_, fun i left hl order hle => ?_⟩
  · obtain ⟨floor, hfl, hle⟩ := hi.kept order (.inl he)
    have hr : VersionsRow.refuses s.row order' := refuses_iff.2 ⟨floor, hfl, by omega⟩
    rw [VersionsRow.addVersion, if_pos hr]
  obtain ⟨ask, has, hcall, hfl⟩ := hi.overtaken i left hl
  exact ⟨ask, has, hcall, hfl, hfl ▸ hle⟩

/-- A version is recorded, announced and retired below by a newer one; a forget raises the floor
and an announce overtakes it. -/
def overtakenForget : List (ScopeAct Bool Nat) :=
  [.answer 0 true 5, .go 0, .announce 1 true 5, .go 1, .retire 2 3, .go 2, .go 2,
    .forget 3, .go 3, .go 3, .go 3, .go 3, .announce 4 false 6, .go 4, .go 3, .go 3]

theorem floors_kept_asked_overtakenForget :
    ∃ s, (scopeFloors Bool Nat).run start overtakenForget = some s ∧
      .retired 3 true ∈ s.returned ∧ .overtaken 3 (some 2) ∈ s.returned ∧
      (∀ order' < 3, VersionsRow.addVersion true order' s.row = (true, s.row)) ∧
      ∃ ask ∈ s.asks, ask.call ≠ 3 ∧ ask.floor = 2 ∧ (2 : Int) ≤ ask.floor := by
  refine StepSystem.exists_run_imp _ (p := fun s => .retired 3 true ∈ s.returned ∧
    .overtaken 3 (some 2) ∈ s.returned) (by decide +kernel) fun s hr hs => ?_
  have h := floors_kept_asked hr
  exact ⟨hs.1, hs.2, fun order' => h.1 3 hs.1 true order', h.2 3 2 hs.2 2 le_rfl⟩

/-- A forget raises the floor past a retirement, which then has nothing to raise; an announce
overtakes the forget. -/
def swallowedRetirement : List (ScopeAct Bool Nat) :=
  [.answer 0 true 5, .go 0, .announce 1 true 5, .go 1,
    .forget 2, .go 2, .go 2, .go 2, .go 2, .retire 3 4, .go 3, .go 3,
    .announce 4 false 6, .go 4, .go 2, .go 2]

/-- A forget runs to its end and leaves its floor; an announce of an older version overtakes the
next forget. -/
def inheritedFloor : List (ScopeAct Bool Nat) :=
  [.answer 0 true 5, .go 0, .announce 1 true 5, .go 1,
    .forget 2, .go 2, .go 2, .go 2, .go 2, .go 2, .clear 2 true 5, .go 2, .go 2, .go 2, .go 2,
    .go 2, .announce 3 false 3, .go 3,
    .forget 4, .go 4, .go 4, .go 4, .go 4, .announce 5 true 4, .go 5, .go 4, .go 4]

/-- A retirement that found a forget's raise loses its floor when that forget is overtaken; and an
overtaken forget leaves the floor of one before it, which refuses the version announced and nobody
asked for. -/
theorem floors_lost_inherited :
    (∃ s, (scopeFloors Bool Nat).run start swallowedRetirement = some s ∧
      .retired 4 false ∈ s.returned ∧ (VersionsRow.addVersion true 3 s.row).1 = false) ∧
    ∃ s, (scopeFloors Bool Nat).run start inheritedFloor = some s ∧
      .forgot 2 true ∈ s.returned ∧ .overtaken 4 (some 5) ∈ s.returned ∧
      s.gate = some (.record ⟨(true, 4), none⟩) ∧
      VersionsRow.refuses s.row 4 ∧ ∀ ask ∈ s.asks, ask.isForget :=
  ⟨StepSystem.exists_run_of_any _ (by decide +kernel),
    StepSystem.exists_run_of_any _ (by decide +kernel)⟩

end ScopeRun

end ThreeTears
