import ThreeTears.Lib.StepSystem
import Mathlib.Tactic.Ring

/-!
# The claims of a recurring schedule

`daily_at` compares two readings of one zone's clock. In a repeated hour the slot that reads later
than the tick may be an instant before it, and is then claimed again.
-/

namespace ThreeTears

/-- The offset before the first transition, and each transition's instant with the offset after it.
Instants, readings of the wall clock and offsets are microseconds. -/
structure Zone where
  before : Int
  transitions : List (Int × Int)
  sorted : transitions.Pairwise (·.1 < ·.1)

namespace Zone

def offsetAt (before : Int) : List (Int × Int) → Int → Int
  | [], _ => before
  | (t, after) :: rest, now => if t ≤ now then offsetAt after rest now else before

/-- The offset of a reading with `fold=0`: in a repeated or skipped hour the one before it. -/
def wallOffset (before : Int) : List (Int × Int) → Int → Int
  | [], _ => before
  | (t, after) :: rest, wall =>
    if t + max before after ≤ wall then wallOffset after rest wall else before

def reading (tz : Zone) (t : Int) : Int := t + offsetAt tz.before tz.transitions t

def instant (tz : Zone) (wall : Int) : Int := wall - wallOffset tz.before tz.transitions wall

/-- The clock did not read as late before: what a transition set it back by has gone by. -/
def Latest (tz : Zone) (t : Int) : Prop :=
  ∀ x ∈ tz.transitions, x.1 ≤ t → tz.reading (x.1 - 1) < tz.reading t

variable {before t wall : Int} {transitions : List (Int × Int)}

lemma offsetAt_eq_before (h : ∀ x ∈ transitions, t < x.1) :
    offsetAt before transitions t = before := by
  cases transitions with
  | nil => rfl
  | cons x rest => simp [offsetAt, h x]

variable (hsorted : transitions.Pairwise (·.1 < ·.1))
include hsorted

lemma exists_reading :
    ∃ t ≤ wall - wallOffset before transitions wall, wall ≤ t + offsetAt before transitions t := by
  induction transitions generalizing before with
  | nil => exact ⟨_, le_rfl, by simp [offsetAt, wallOffset]⟩
  | cons x rest ih =>
    obtain ⟨hx, hr⟩ := List.pairwise_cons.1 hsorted
    have haf : ∀ t ≤ x.1, offsetAt x.2 rest t = x.2 := fun t ht =>
      offsetAt_eq_before fun y hy => ht.trans_lt (hx y hy)
    simp only [wallOffset, offsetAt]
    by_cases hw : x.1 + max before x.2 ≤ wall
    · obtain ⟨t, hle, hread⟩ := ih hr
      have hxt : x.1 ≤ t := by
        by_contra hlt
        rw [haf t (by omega)] at hread
        omega
      exact ⟨t, by rwa [if_pos hw], by rwa [if_pos hxt]⟩
    rw [if_neg hw]
    by_cases hk : x.1 ≤ wall - before
    · refine ⟨x.1, hk, ?_⟩
      rw [if_pos le_rfl, haf _ le_rfl]
      omega
    refine ⟨wall - before, le_rfl, ?_⟩
    rw [if_neg hk]
    omega

lemma reading_le {t' : Int} (hl : ∀ x ∈ transitions, x.1 ≤ t →
      x.1 - 1 + offsetAt before transitions (x.1 - 1) < t + offsetAt before transitions t)
    (ht : t' ≤ t) : t' + offsetAt before transitions t' ≤ t + offsetAt before transitions t := by
  induction transitions generalizing before with
  | nil => simpa [offsetAt] using ht
  | cons x rest ih =>
    obtain ⟨hx, hr⟩ := List.pairwise_cons.1 hsorted
    have hfirst := hl x List.mem_cons_self
    simp only [offsetAt] at hfirst hl ⊢
    by_cases hxt : x.1 ≤ t
    · rw [if_pos hxt] at hfirst ⊢
      by_cases hx' : x.1 ≤ t'
      · rw [if_pos hx']
        refine ih hr fun y hy hyt => ?_
        have hy' := hl y (List.mem_cons_of_mem _ hy) hyt
        have hxy := hx y hy
        rwa [if_pos hxt, if_pos (by omega)] at hy'
      rw [if_neg hx']
      rw [if_neg (by omega)] at hfirst
      have := hfirst hxt
      omega
    rw [if_neg hxt, if_neg (by omega)]
    omega

omit hsorted

lemma lt_instant {tz : Zone} (hl : tz.Latest t) (hw : tz.reading t < wall) :
    t < tz.instant wall := by
  by_contra hle
  obtain ⟨t', ht', hread⟩ := exists_reading tz.sorted
  have := reading_le tz.sorted hl (ht'.trans (not_lt.1 hle))
  exact (hread.trans this).not_gt hw

end Zone

inductive MissedFirePolicy
  | coalesce
  | catchUp
  deriving DecidableEq

/-- The recurring schedule types with their configuration. -/
inductive Schedule
  | interval (seconds : Int)
  | everyNHours (n : Int)
  | dailyAt (hour : Fin 24) (minute : Fin 60) (tz : Zone)

def second : Int := 1000000

def day : Int := 86400 * second

namespace Schedule

def nextFixedStep (step : Int) (policy : MissedFirePolicy) (current : Option Int) (now : Int) :
    Int :=
  match current with
  | none => now + step
  | some anchor =>
    if policy = .catchUp then anchor + step
    else anchor + step * (if now < anchor then 1 else (now - anchor) / step + 1)

def slot (hour : Fin 24) (minute : Fin 60) (date : Int) : Int :=
  date * day + (hour * 60 + minute) * (60 * second)

def nextDailyAt (hour : Fin 24) (minute : Fin 60) (tz : Zone) (policy : MissedFirePolicy)
    (current : Option Int) (now : Int) : Int :=
  match policy, current with
  | .catchUp, some current => tz.instant (slot hour minute (tz.reading current / day + 1))
  | _, _ =>
    let candidate := slot hour minute (tz.reading now / day)
    if candidate ≤ tz.reading now then tz.instant (slot hour minute (tz.reading now / day + 1))
    else tz.instant candidate

def computeNextFireAt (policy : MissedFirePolicy) (current : Option Int) (now : Int) :
    Schedule → Except String Int
  | interval seconds =>
    if seconds ≤ 0 then .error s!"interval requires positive seconds, got {seconds}"
    else .ok (nextFixedStep (seconds * second) policy current now)
  | everyNHours n =>
    if n ≤ 0 then .error s!"every_n_hours requires positive n, got {n}"
    else .ok (nextFixedStep (n * (3600 * second)) policy current now)
  | dailyAt hour minute tz => .ok (nextDailyAt hour minute tz policy current now)

def step : Schedule → Option Int
  | interval seconds => some (seconds * second)
  | everyNHours n => some (n * (3600 * second))
  | dailyAt _ _ _ => none

variable {policy : MissedFirePolicy} {anchor now next : Int} {schedule : Schedule}

/-- The next fire is some steps on: one under `catch_up`, and past the tick under `coalesce`. -/
lemma nextFixedStep_eq (policy : MissedFirePolicy) {step : Int} (ht : 0 < step)
    (hd : anchor ≤ now) :
    ∃ k : ℕ, nextFixedStep step policy (some anchor) now = anchor + (k + 1) * step ∧
      (policy = .catchUp → k = 0) ∧
      (policy = .coalesce → now < nextFixedStep step policy (some anchor) now) := by
  cases policy with
  | catchUp => exact ⟨0, by simp [nextFixedStep], fun _ => rfl, nofun⟩
  | coalesce =>
    have ho : 0 ≤ (now - anchor) / step := Int.ediv_nonneg (by omega) ht.le
    have hpa := Int.lt_mul_ediv_self_add (x := now - anchor) ht
    simp only [nextFixedStep, reduceCtorEq, if_false, not_lt.2 hd]
    refine ⟨((now - anchor) / step).toNat, ?_, nofun, fun _ => ?_⟩
    · rw [Int.toNat_of_nonneg ho]
      ring
    rw [mul_add]
    omega

lemma lt_slot (hour : Fin 24) (mi : Fin 60) (r : Int) : r < slot hour mi (r / day + 1) := by
  simp only [slot, day, second]
  omega

lemma nextDailyAt_gt {hour : Fin 24} {mi : Fin 60} {tz : Zone} (hd : anchor ≤ now)
    (hl : tz.Latest (if policy = .coalesce then now else anchor)) :
    anchor < nextDailyAt hour mi tz policy (some anchor) now ∧
      (policy = .coalesce → now < nextDailyAt hour mi tz policy (some anchor) now) := by
  cases policy with
  | catchUp => exact ⟨Zone.lt_instant hl (lt_slot hour mi _), nofun⟩
  | coalesce =>
    have ho : now < nextDailyAt hour mi tz .coalesce (some anchor) now := by
      simp only [nextDailyAt]
      split_ifs with hpa
      · exact Zone.lt_instant hl (lt_slot hour mi _)
      · exact Zone.lt_instant hl (not_le.1 hpa)
    exact ⟨hd.trans_lt ho, fun _ => ho⟩

end Schedule

/-- A job's row and its claims, the newest first, each with its tick. -/
structure Recurring where
  nextFireAt : Int
  claims : List (Int × Int)
  deriving DecidableEq

namespace Recurring

variable {schedule : Schedule} {policy : MissedFirePolicy} {s s' : Recurring} {now next t0 : Int}

def tick (schedule : Schedule) (policy : MissedFirePolicy) (s : Recurring) (now : Int) :
    Recurring :=
  if s.nextFireAt ≤ now then
    match schedule.computeNextFireAt policy (some s.nextFireAt) now with
    | .error _ => s
    | .ok next => ⟨next, (s.nextFireAt, now) :: s.claims⟩
  else s

def system (schedule : Schedule) (policy : MissedFirePolicy) : StepSystem Recurring Int :=
  ⟨fun s now => some (s.tick schedule policy now)⟩

/-- A tick that claims a `daily_at` job reads the clock at its latest. -/
def Unrepeated (policy : MissedFirePolicy) (s : Recurring) (now : Int) : Schedule → Prop
  | .dailyAt _ _ tz =>
    s.nextFireAt ≤ now → tz.Latest (if policy = .coalesce then now else s.nextFireAt)
  | .interval _ | .everyNHours _ => True

instance (s : Recurring) : Decidable (s.Unrepeated policy now schedule) := by
  unfold Unrepeated Zone.Latest
  split <;> infer_instance

/-- A claim is of an earlier occurrence, and under `coalesce` of an earlier tick. -/
def Before (policy : MissedFirePolicy) (c : Int × Int) (next : Int) : Prop :=
  c.1 < next ∧ (policy = .coalesce → c.2 < next)

lemma computeNextFireAt_ok (hd : s.nextFireAt ≤ now) (ho : s.Unrepeated policy now schedule)
    (hnext : schedule.computeNextFireAt policy (some s.nextFireAt) now = .ok next) :
    Before policy (s.nextFireAt, now) next ∧ ∀ step ∈ schedule.step,
      ∃ k : ℕ, next = s.nextFireAt + (k + 1) * step ∧ (policy = .catchUp → k = 0) := by
  have hi {step : Int} (ht : 0 < step)
      (he : Schedule.nextFixedStep step policy (some s.nextFireAt) now = next) :
      Before policy (s.nextFireAt, now) next ∧
        ∃ k : ℕ, next = s.nextFireAt + (k + 1) * step ∧ (policy = .catchUp → k = 0) := by
    obtain ⟨k, hk, hc, hpa⟩ := Schedule.nextFixedStep_eq policy ht hd
    rw [he] at hk hpa
    have hpos : 0 < (k + 1 : Int) * step := Int.mul_pos (by omega) ht
    exact ⟨⟨by dsimp only; omega, hpa⟩, k, hk, hc⟩
  cases schedule with
  | interval sec | everyNHours n =>
    simp only [Schedule.computeNextFireAt] at hnext
    split_ifs at hnext with hpos
    obtain ⟨hb, hg⟩ := hi (by simp only [second]; omega) (Except.ok.inj hnext)
    refine ⟨hb, ?_⟩
    rintro _ ⟨⟩
    exact hg
  | dailyAt hour mi tz =>
    cases hnext
    exact ⟨Schedule.nextDailyAt_gt hd (ho hd), nofun⟩

structure Forward (schedule : Schedule) (policy : MissedFirePolicy) (t0 : Int) (s : Recurring) :
    Prop where
  last : ∀ c ∈ s.claims, Before policy c s.nextFireAt
  claims : s.claims.Pairwise fun c d => Before policy d c.1
  grid : ∀ step ∈ schedule.step, (∃ k : ℕ, s.nextFireAt = t0 + k * step) ∧
    ∀ c ∈ s.claims, ∃ k : ℕ, c.1 = t0 + k * step
  each : ∀ step ∈ schedule.step, policy = .catchUp →
    s.nextFireAt = t0 + s.claims.length * step ∧
      s.claims.map Prod.fst = (List.range s.claims.length).reverse.map fun k : ℕ => t0 + k * step

lemma Forward.tick (h : s.Forward schedule policy t0) (hok : s.Unrepeated policy now schedule) :
    (s.tick schedule policy now).Forward schedule policy t0 := by
  unfold Recurring.tick
  split_ifs with hd
  · split
    · exact h
    rename_i next hnext
    obtain ⟨hb, hg⟩ := computeNextFireAt_ok hd hok hnext
    refine ⟨?_, List.pairwise_cons.2 ⟨h.last, h.claims⟩, fun step ht => ?_, fun step ht hca => ?_⟩
    · rintro c (_ | ⟨_, hc⟩)
      · exact hb
      have hc := h.last c hc
      exact ⟨hc.1.trans hb.1, fun hp => (hc.2 hp).trans hb.1⟩
    · obtain ⟨k, hk, -⟩ := hg step ht
      obtain ⟨⟨n, hn⟩, hl⟩ := h.grid step ht
      refine ⟨⟨n + (k + 1), ?_⟩, ?_⟩
      · rw [hk, hn]
        push_cast
        ring
      rintro c (_ | ⟨_, hc⟩)
      · exact ⟨n, hn⟩
      · exact hl c hc
    obtain ⟨k, hk, ho⟩ := hg step ht
    obtain ⟨hno, hm⟩ := h.each step ht hca
    constructor
    · rw [hk, hno, ho hca, List.length_cons]
      push_cast
      ring
    · simp [List.range_succ, hm, hno]
  · exact h

/-- Where no tick reads a repeated time, the claims move strictly forward, under `coalesce` past the
tick; those of a fixed step lie on its grid, and under `catch_up` are all of it. -/
theorem claims_move_forward {ticks : List Int}
    (hrun : ((system schedule policy).guard fun s now => s.Unrepeated policy now schedule).run
      ⟨t0, []⟩ ticks = some s) : (∀ c ∈ s.claims, Before policy c s.nextFireAt) ∧
      s.claims.Pairwise (fun c d => Before policy d c.1) ∧
      ∀ step ∈ schedule.step, (∀ c ∈ s.claims, ∃ k : ℕ, c.1 = t0 + k * step) ∧
        (policy = .catchUp → s.claims.map Prod.fst =
          (List.range s.claims.length).reverse.map fun k : ℕ => t0 + k * step) := by
  have hsa : Forward schedule policy t0 ⟨t0, []⟩ :=
    ⟨nofun, .nil, fun _ _ => ⟨⟨0, by simp⟩, nofun⟩, fun _ _ _ => by simp⟩
  have h : s.Forward schedule policy t0 := by
    refine StepSystem.run_guard_invariant _ (fun s now s' h ho ht => ?_) hsa hrun
    cases ht
    exact h.tick ho
  exact ⟨h.last, h.claims, fun step ht =>
    ⟨(h.grid step ht).2, fun hc => (h.each step ht hc).2⟩⟩

def fallBack : Zone := ⟨7200 * second, [(3600 * second, 3600 * second)], by simp⟩

/-- A job at half past two, claimed when the repeated hour is over. -/
theorem claims_move_forward_late : ∃ s, ((system (.dailyAt 2 30 fallBack) .coalesce).guard
      fun s now => s.Unrepeated .coalesce now (.dailyAt 2 30 fallBack)).run
        ⟨1800 * second, []⟩ [7200 * second, 9000 * second] = some s ∧
      s.claims = [(1800 * second, 7200 * second)] ∧
      ∀ c ∈ s.claims, Before .coalesce c s.nextFireAt := by
  refine StepSystem.exists_run_and _ ?_ fun s hr _ => (claims_move_forward hr).1
  decide +kernel

/-- Two ticks in the repeated hour, before the clock reads half past two again, claim one
occurrence twice. -/
theorem claimed_twice : (system (.dailyAt 2 30 fallBack) .coalesce).run ⟨1800 * second, []⟩
      [4200 * second, 4260 * second] = some
        ⟨1800 * second, [(1800 * second, 4260 * second), (1800 * second, 4200 * second)]⟩ := by
  decide +kernel

end Recurring

end ThreeTears
