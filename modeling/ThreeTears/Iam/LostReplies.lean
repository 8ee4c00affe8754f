import ThreeTears.Lib.Families
import ThreeTears.Lib.StepSystem

/-!
# Refresh replies that are lost

Any number of calls present one refresh token, each with the key that the session is bound to, and
pass their checks. The first one redeems the token. The others ask the replay-grace cache for the
pair that it was exchanged for.
-/

namespace ThreeTears

open Function StepSystem

/-- Where a call of `rotate_refresh_token` is. -/
inductive RotatePc (π : Type*)
  | idle
  | verified
  | admitted
  | spent
  | reused
  | redeemed
  | minted (pair : π)
  | returned (pair : π)
  | refused

structure ReplayGraceEntry (π κ : Type*) where
  pair : π
  holderKey : κ

/-- What the stores have of the token and its session, and the calls that present it. -/
structure TokenRotation (π κ ι : Type*) where
  redeemed : Bool
  grace : Option (ReplayGraceEntry π κ)
  revoked : Bool
  calls : ι → RotatePc π

namespace TokenRotation

variable {π κ ι : Type*} [DecidableEq κ] [DecidableEq ι] {cnf : κ} {s s' : TokenRotation π κ ι}
  {a : ι × π} {as : List (ι × π)} {i j : ι} {pc : RotatePc π} {p q : π} {winner : Option ι}

def goTo (s : TokenRotation π κ ι) (i : ι) (pc : RotatePc π) : TokenRotation π κ ι :=
  { s with calls := update s.calls i pc }

def replayedWithinGrace (cnf : κ) (s : TokenRotation π κ ι) : Option π :=
  s.grace.bind fun entry => if entry.holderKey = cnf then some entry.pair else none

/-- The call `i` goes on to its next await. If it mints a pair, then this one. -/
def step (cnf : κ) (s : TokenRotation π κ ι) : ι × π → Option (TokenRotation π κ ι)
  | (i, pair) => match s.calls i with
    | .idle => some (s.goTo i .verified)
    | .verified => some (s.goTo i (if s.revoked then .refused else .admitted))
    | .admitted =>
      some { s.goTo i (if s.redeemed then .spent else .redeemed) with redeemed := true }
    | .spent => some (s.goTo i ((s.replayedWithinGrace cnf).elim .reused .returned))
    | .reused => some { s.goTo i .refused with revoked := true }
    | .redeemed => some (s.goTo i (.minted pair))
    | .minted pair => some { s.goTo i (.returned pair) with grace := some ⟨pair, cnf⟩ }
    | .returned _ | .refused => none

def system (cnf : κ) : StepSystem (TokenRotation π κ ι) (ι × π) := ⟨step cnf⟩

def start : TokenRotation π κ ι := ⟨false, none, false, fun _ => .idle⟩

/-- A call that found the token redeemed recalls once the pair is remembered. -/
def Remembered (s : TokenRotation π κ ι) (a : ι × π) : Prop :=
  match s.calls a.1 with
  | .spent => s.grace.isSome
  | _ => True

instance : Decidable (s.Remembered a) := by
  unfold Remembered
  split <;> infer_instance

def awaitsLeft : RotatePc π → Nat
  | .idle => 5
  | .verified => 4
  | .admitted => 3
  | .spent | .redeemed => 2
  | .reused | .minted _ => 1
  | .returned _ | .refused => 0

def Fit (cnf : κ) (s : TokenRotation π κ ι) (winner : Option ι) (i : ι) : RotatePc π → Prop
  | .spent => s.redeemed
  | .redeemed | .minted _ => winner = some i
  | .returned p => s.grace = some ⟨p, cnf⟩
  | .reused | .refused => False
  | _ => True

/-- The winner is the call that has the pair to remember. -/
structure Inv (cnf : κ) (winner : Option ι) (s : TokenRotation π κ ι) : Prop where
  kept : s.revoked = false
  entry : ∀ entry ∈ s.grace, entry.holderKey = cnf ∧ s.redeemed
  fit : ∀ i, s.Fit cnf winner i (s.calls i)
  won : ∀ w ∈ winner, s.redeemed ∧ s.grace = none

omit [DecidableEq κ] in
lemma Inv.goTo (h : Inv cnf winner s) (hi : s.Fit cnf winner i pc) : Inv cnf winner (s.goTo i pc) :=
  { h with fit := forall_update h.fit hi }

omit [DecidableEq κ] in
lemma Inv.redeem (h : Inv cnf winner s) (ho : s.redeemed = false) :
    Inv cnf (some i) { s.goTo i .redeemed with redeemed := true } where
  kept := h.kept
  entry := fun entry he => ⟨(h.entry entry he).1, rfl⟩
  fit := fun j => by
    have hj := h.fit j
    simp only [TokenRotation.goTo, update_apply]
    split_ifs with hi
    · exact congrArg some hi.symm
    cases hpc : s.calls j with rw [hpc] at hj
    | spent => trivial
    | redeemed => simp [(h.won j hj).1] at ho
    | minted => simp [(h.won j hj).1] at ho
    | _ => exact hj
  won := fun w hw => by
    cases hw
    refine ⟨rfl, Option.eq_none_iff_forall_not_mem.2 fun e he => ?_⟩
    simp [(h.entry e he).2] at ho

omit [DecidableEq κ] in
lemma Inv.remember (h : Inv cnf winner s) (hpc : s.calls i = .minted p) :
    Inv cnf none { s.goTo i (.returned p) with grace := some ⟨p, cnf⟩ } := by
  have hi : s.Fit cnf winner i (.minted p) := hpc ▸ h.fit i
  obtain ⟨hr, hg⟩ := h.won i hi
  refine ⟨h.kept, ?_, fun j => ?_, nofun⟩
  · rintro _ ⟨⟩
    exact ⟨rfl, hr⟩
  have hj := h.fit j
  simp only [TokenRotation.goTo, update_apply]
  split_ifs with hji
  · rfl
  have he : winner ≠ some j := fun hw => hji (Option.some.inj (hw.symm.trans hi))
  cases hpc : s.calls j with rw [hpc] at hj
  | redeemed => exact absurd hj he
  | minted => exact absurd hj he
  | returned => cases hg.symm.trans hj
  | _ => exact hj

lemma Inv.step (h : Inv cnf winner s) (ho : s.Remembered a) (ht : step cnf s a = some s') :
    ∃ winner, Inv cnf winner s' := by
  obtain ⟨i, pair⟩ := a
  have hi := h.fit i
  cases hpc : s.calls i with (simp only [TokenRotation.step, Remembered, hpc] at ht ho hi; cases ht)
  | idle => exact ⟨_, h.goTo trivial⟩
  | verified =>
    rw [h.kept]
    exact ⟨_, h.goTo trivial⟩
  | admitted =>
    cases hr : s.redeemed with
    | false => exact ⟨_, h.redeem hr⟩
    | true =>
      have hsp : s.Fit cnf winner i .spent := hr
      have := h.goTo hsp
      exact ⟨_, by rwa [TokenRotation.goTo, hr] at this⟩
  | spent =>
    obtain ⟨e, he⟩ := Option.isSome_iff_exists.1 ho
    have hkey := (h.entry e he).1
    have hpa : s.replayedWithinGrace cnf = some e.pair := by simp [replayedWithinGrace, he, hkey]
    rw [hpa]
    exact ⟨_, h.goTo (hkey ▸ he)⟩
  | reused => exact hi.elim
  | redeemed => exact ⟨_, h.goTo hi⟩
  | minted => exact ⟨_, h.remember hpc⟩

lemma exists_step (p : π) (hl : awaitsLeft (s.calls i) ≠ 0) :
    ∃ s', step cnf s (i, p) = some s' ∧ awaitsLeft (s'.calls i) < awaitsLeft (s.calls i) := by
  cases hpc : s.calls i with simp [step, goTo, hpc, awaitsLeft] at hl ⊢
  | verified => cases s.revoked <;> simp
  | admitted => cases s.redeemed <;> simp
  | spent => cases s.replayedWithinGrace cnf <;> simp

/-- The session is not revoked, no call is refused and those that have returned returned one pair.
Each of the others has a next step, which brings it nearer to its end. -/
theorem same_pair_returned (hrun : ((system cnf).guard Remembered).run start as = some s) :
    s.revoked = false ∧ (∀ i j p q, s.calls i = .returned p → s.calls j = .returned q → p = q) ∧
      ∀ i p, (∃ q, s.calls i = .returned q) ∨ ∃ s', step cnf s (i, p) = some s' ∧
        awaitsLeft (s'.calls i) < awaitsLeft (s.calls i) := by
  have hsa : Inv cnf none (start : TokenRotation π κ ι) := ⟨rfl, nofun, fun _ => trivial, nofun⟩
  obtain ⟨winner, h⟩ := run_guard_invariant (I := fun s => ∃ winner, Inv cnf winner s) _
    (fun _ _ _ ⟨_, h⟩ ho ht => h.step ho ht) ⟨none, hsa⟩ hrun
  refine ⟨h.kept, fun i j p q hp hq => ?_, fun i p => ?_⟩
  · have hi : s.Fit cnf winner i (.returned p) := hp ▸ h.fit i
    have hj : s.Fit cnf winner j (.returned q) := hq ▸ h.fit j
    cases hi.symm.trans hj
    rfl
  refine or_iff_not_imp_left.2 fun hno => exists_step p fun hl => ?_
  have hi := h.fit i
  cases hpc : s.calls i with rw [hpc] at hi hl
  | returned q => exact hno ⟨q, hpc⟩
  | refused => exact hi
  | _ => cases hl

def overlapping : List (Bool × Nat) :=
  [(true, 0), (false, 0), (true, 0), (false, 0), (true, 0), (false, 0)]

theorem same_pair_returned_twice : ∃ s, ((system 7).guard Remembered).run start
    (overlapping ++ [(true, 1), (true, 0), (false, 0)]) = some s ∧
    s.calls true = .returned 1 ∧ s.calls false = .returned 1 ∧ s.revoked = false := by
  obtain ⟨s, hr, ht, hfa⟩ : ∃ s, ((system 7).guard Remembered).run start
    (overlapping ++ [(true, 1), (true, 0), (false, 0)]) = some s ∧
    s.calls true = .returned 1 ∧ s.calls false = .returned 1 := ⟨_, rfl, rfl, rfl⟩
  exact ⟨s, hr, ht, hfa, (same_pair_returned hr).1⟩

/-- The second call recalls before the first one has remembered its pair. -/
theorem session_revoked_by_retry : ∃ s, (system 7).run start
    (overlapping ++ [(false, 0), (false, 0)]) = some s ∧
    s.calls true = .redeemed ∧ s.calls false = .refused ∧ s.revoked :=
  ⟨_, rfl, rfl, rfl, rfl⟩

end TokenRotation

end ThreeTears
