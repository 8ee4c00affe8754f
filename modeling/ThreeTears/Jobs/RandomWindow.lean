import ThreeTears.Jobs.Reschedule
import ThreeTears.Lib.Lists

/-!
# A schedule at random times of a window

`_select_slot` goes by the slot in which the tick finds the clock. A fire that is claimed after its
slot has ended takes the next slot with it, and the first fire may be followed by one in its slot.
-/

namespace ThreeTears

/-- `timedelta / int`: the nearest microsecond, of two the even one. -/
def timedeltaDiv (a n : Int) : Int :=
  if n < 2 * (a % n) ∨ 2 * (a % n) = n ∧ a / n % 2 = 1 then a / n + 1 else a / n

/-- The configuration of `random_within_window`, in a zone with one offset. -/
structure RandomWindow where
  startHour : Fin 24
  endHour : Fin 24
  ne : startHour ≠ endHour
  firesPerDay : ℕ
  pos : 0 < firesPerDay
  offset : Int

namespace RandomWindow

variable (w : RandomWindow)

/-- The window that contains a reading of the clock, or the day's upcoming one. -/
def windowBounds (now : Int) : Int × Int :=
  let date := now / day
  if (w.startHour : Int) < w.endHour then
    (date * day + w.startHour * (3600 * second), date * day + w.endHour * (3600 * second))
  else
    let anchor := if now % day / (3600 * second) < w.endHour then date - 1 else date
    (anchor * day + w.startHour * (3600 * second), (anchor + 1) * day + w.endHour * (3600 * second))

def selectSlot (start span now : Int) (alreadyFired : Bool) : Option (Int × Int) :=
  ((List.range w.firesPerDay).find? fun i : ℕ =>
      now < if alreadyFired then start + span * i else start + span * i + span).map
    fun i : ℕ => (start + span * i, start + span * i + span)

/-- The range of the random choice: `random.uniform` and the rounding reach both ends. -/
def choices (last : Option Int) (now : Int) : Int × Int :=
  let (start, stop) := w.windowBounds now
  let span := timedeltaDiv (stop - start) w.firesPerDay
  let (slotStart, slotEnd) := (w.selectSlot start span now last.isSome).getD
    (start + day, start + day + span)
  if slotEnd - max slotStart now ≤ 0 then (slotStart, slotEnd) else (max slotStart now, slotEnd)

/-- A job's row, and the fires that were claimed. -/
structure Job where
  nextFireAt : Int
  lastFiredAt : Option Int
  fired : List Int
  deriving DecidableEq

/-- A tick and the instant that it chooses, should it claim the job. -/
def tick (s : Job) (now choice : Int) : Option Job :=
  if s.nextFireAt ≤ now then
    let range := w.choices s.lastFiredAt (now + w.offset)
    if range.1 ≤ choice + w.offset ∧ choice + w.offset ≤ range.2 then
      some ⟨choice, some now, s.fired ++ [s.nextFireAt]⟩
    else none
  else some s

def system : StepSystem Job (Int × Int) := ⟨fun s a => w.tick s a.1 a.2⟩

def length : Int :=
  (if (w.startHour : Int) < w.endHour then w.endHour - w.startHour
    else 24 + w.endHour - w.startHour) * (3600 * second)

def span : Int := timedeltaDiv w.length w.firesPerDay

def windowStart (d : Int) : Int := d * day + w.startHour * (3600 * second)

/-- The slots of all windows, in one row: the window of a slot. -/
abbrev windowOf (k : Int) : Int := w.windowStart (k / w.firesPerDay)

def slotStart (k : Int) : Int := w.windowOf k + w.span * (k % w.firesPerDay)

def InSlot (k t : Int) : Prop :=
  w.slotStart k ≤ t + w.offset ∧ t + w.offset < w.slotStart k + w.span
  deriving Decidable

def InWindow (d t : Int) : Prop :=
  w.windowStart d ≤ t + w.offset ∧ t + w.offset < w.windowStart d + w.length
  deriving Decidable

/-- A tick that claims the job comes before the slot of the fire has ended. -/
def InTime (k : Int) (s : Job) (now : Int) : Prop :=
  s.nextFireAt ≤ now → now + w.offset < w.slotStart (k + s.fired.length) + w.span
  deriving Decidable

variable {k j d now t : Int} {s s' : Job}

lemma length_bounds : 0 < w.length ∧ w.length < day := by
  have := Fin.val_ne_of_ne w.ne
  simp only [length, day, second]
  split_ifs <;> omega

lemma span_nonneg : 0 ≤ w.span := by
  have : 0 ≤ w.length / w.firesPerDay := Int.ediv_nonneg w.length_bounds.1.le (by omega)
  simp only [span, timedeltaDiv]
  split_ifs <;> omega

lemma emod_bounds (k : Int) : (0 : Int) < w.firesPerDay ∧ 0 ≤ k % w.firesPerDay ∧
    k % w.firesPerDay + 1 ≤ w.firesPerDay := by
  have hp : (0 : Int) < w.firesPerDay := by exact_mod_cast w.pos
  exact ⟨hp, Int.emod_nonneg k hp.ne', Int.emod_lt_of_pos k hp⟩

/-- The next slot is the next one of the window, or the first of the next day's. -/
lemma slotStart_succ (k : Int) :
    k % w.firesPerDay + 1 < w.firesPerDay ∧ w.slotStart (k + 1) = w.slotStart k + w.span ∨
      k % w.firesPerDay + 1 = w.firesPerDay ∧ w.slotStart (k + 1) = w.windowOf k + day := by
  obtain ⟨hp, hr, hle⟩ := w.emod_bounds k
  have hk := Int.emod_add_mul_ediv k w.firesPerDay
  obtain hl | hl := hle.lt_or_eq
  · obtain ⟨hq, hm⟩ := (Int.ediv_emod_unique hp).2
      ⟨show k % w.firesPerDay + 1 + w.firesPerDay * (k / w.firesPerDay) = k + 1 by omega,
        by omega, hl⟩
    refine .inl ⟨hl, ?_⟩
    rw [slotStart, slotStart, windowOf, hq, hm]
    ring
  · obtain ⟨hq, hm⟩ := (Int.ediv_emod_unique hp).2
      ⟨show 0 + w.firesPerDay * (k / w.firesPerDay + 1) = k + 1 by rw [mul_add]; omega, le_rfl, hp⟩
    refine .inr ⟨hl, ?_⟩
    simp only [slotStart, windowOf, windowStart, hq, hm]
    ring

variable {w}

lemma windowBounds_eq (h : w.windowStart d ≤ now) (ho : now < w.windowStart d + w.length) :
    w.windowBounds now = (w.windowStart d, w.windowStart d + w.length) := by
  simp only [windowBounds, windowStart, length, day, second] at h ho ⊢
  split_ifs at ho ⊢ <;> simp only [Prod.mk.injEq] <;> omega

section

variable (hw : w.firesPerDay * w.span ≤ w.length)
include hw

lemma slot_in_window (k : Int) : w.windowOf k ≤ w.slotStart k ∧
    w.slotStart k + w.span ≤ w.windowOf k + w.length := by
  have hb := w.emod_bounds k
  have h0 := Int.mul_nonneg w.span_nonneg hb.2.1
  have h1 := Int.mul_le_mul_of_nonneg_left hb.2.2 w.span_nonneg
  rw [mul_add, mul_one, mul_comm w.span w.firesPerDay] at h1
  rw [slotStart]
  omega

lemma slotStart_mono (h : j < k) : w.slotStart j + w.span ≤ w.slotStart k := by
  have hs : ∀ k, w.slotStart k + w.span ≤ w.slotStart (k + 1) := by
    intro k
    have := slot_in_window hw k
    have := w.length_bounds
    rcases w.slotStart_succ k with ⟨-, h⟩ | ⟨-, h⟩ <;> omega
  have hm : Monotone w.slotStart := monotone_int_of_le_succ fun k => by
    have := hs k
    have := w.span_nonneg
    omega
  exact (hs j).trans (hm h)

/-- After a fire that is claimed in its slot the choice is from the next slot. -/
lemma choices_eq {last : Option Int} (hl : last.isSome) (h : w.slotStart k ≤ now)
    (ho : now < w.slotStart k + w.span) :
    w.choices last now = (w.slotStart (k + 1), w.slotStart (k + 1) + w.span) := by
  have hi := slot_in_window hw k
  have hb : w.windowBounds now = _ := windowBounds_eq (hi.1.trans h) (ho.trans_le hi.2)
  have hn : now < w.slotStart (k + 1) := ho.trans_le (slotStart_mono hw (by omega))
  have hif : ∀ i : ℕ, now < w.windowOf k + w.span * i ↔ k % w.firesPerDay < i := by
    intro i
    rw [slotStart] at h ho
    constructor
    · intro hlt
      by_contra hge
      have := Int.mul_le_mul_of_nonneg_left (not_lt.1 hge) w.span_nonneg
      omega
    · intro hlt
      have := Int.mul_le_mul_of_nonneg_left (Int.add_one_le_of_lt hlt) w.span_nonneg
      rw [mul_add, mul_one] at this
      exact ho.trans_le (add_assoc _ _ w.span ▸ Int.add_le_add_left this _)
  have hc : (w.selectSlot (w.windowOf k) w.span now true).getD
      (w.windowOf k + day, w.windowOf k + day + w.span) =
        (w.slotStart (k + 1), w.slotStart (k + 1) + w.span) := by
    have hr := (w.emod_bounds k).2.1
    simp only [selectSlot, if_true, hif]
    rcases w.slotStart_succ k with ⟨hlt, he⟩ | ⟨heq, he⟩
    -- the slots up to the tick's own have started
    · rw [List.find?_range_eq_some (i := (k % w.firesPerDay).toNat + 1) |>.2]
      · rw [Option.map_some, Option.getD_some, he, slotStart]
        push_cast
        rw [Int.toNat_of_nonneg hr, mul_add, mul_one, ← add_assoc]
      · exact ⟨by simp [hr], by simp; omega, fun i hi => by simp; omega⟩
    · rw [List.find?_range_eq_none.2 fun i hi => by simp; omega, he]
      rfl
  have hs : timedeltaDiv w.length w.firesPerDay = w.span := rfl
  simp only [choices, hb, hl, add_sub_cancel_left, hs, hc]
  rw [max_eq_left hn.le, if_neg (by omega)]

end

/-- Every fire so far was in its slot, and the next one is in the slot after them. -/
structure OnSlots (w : RandomWindow) (k : Int) (s : Job) : Prop where
  last : s.lastFiredAt.isSome
  next : w.slotStart (k + s.fired.length) ≤ s.nextFireAt + w.offset ∧
    s.nextFireAt + w.offset ≤ w.slotStart (k + s.fired.length) + w.span
  fired : ∀ (i : ℕ) t, s.fired[i]? = some t → w.InSlot (k + i) t

lemma OnSlots.tick {choice : Int} (hw : w.firesPerDay * w.span ≤ w.length) (h : w.OnSlots k s)
    (hi : w.InTime k s now) (ht : w.tick s now choice = some s') : w.OnSlots k s' := by
  simp only [RandomWindow.tick] at ht
  split_ifs at ht with hd hc
  · cases ht
    have ho := hi hd
    rw [choices_eq hw h.last (by have := h.next; omega) ho] at hc
    refine ⟨rfl, by simpa [add_assoc] using hc, fun i t hit => ?_⟩
    rw [List.getElem?_append] at hit
    split_ifs at hit with hlt
    · exact h.fired i t hit
    · obtain ⟨hz, rfl⟩ : i - s.fired.length = 0 ∧ s.nextFireAt = t := by
        simpa [List.getElem?_singleton] using hit
      rw [show i = s.fired.length by omega]
      exact ⟨h.next.1, by omega⟩
  · cases ht
    exact h

/-- Where every claim is in time, the fires and the slots go along together: each slot has one of
them, each window as many as it is to have, and none is outside a window. -/
theorem fires_once_a_slot {ticks : List (Int × Int)} (hfit : w.firesPerDay * w.span ≤ w.length)
    (hlast : s.lastFiredAt.isSome) (hfired : s.fired = [])
    (hnext : w.slotStart k ≤ s.nextFireAt + w.offset ∧
      s.nextFireAt + w.offset ≤ w.slotStart k + w.span)
    (hrun : (w.system.guard fun s a => w.InTime k s a.1).run s ticks = some s') :
    (∀ (i : ℕ) t, s'.fired[i]? = some t → ∀ j, w.InSlot j t ↔ j = k + i) ∧
      (∀ d, k ≤ w.firesPerDay * d → w.firesPerDay * (d + 1) ≤ k + s'.fired.length →
        s'.fired.countP (w.InWindow d) = w.firesPerDay) ∧
      (∀ t ∈ s'.fired, ∃ d, w.InWindow d t) ∧
      ∃ d, w.windowStart d ≤ s'.nextFireAt + w.offset ∧
        s'.nextFireAt + w.offset ≤ w.windowStart d + w.length := by
  have h : w.OnSlots k s' := by
    refine StepSystem.run_guard_invariant _ (fun s a s' h ho ht => h.tick hfit ho ht) ?_ hrun
    exact ⟨hlast, by simpa [hfired] using hnext, by simp [hfired]⟩
  have hwin : ∀ (i : ℕ) t, s'.fired[i]? = some t →
      ∀ d, w.InWindow d t ↔ d = (k + i) / w.firesPerDay := by
    intro i t hi d
    have hs := h.fired i t hi
    have hin := slot_in_window hfit (k + i)
    have hl := w.length_bounds
    constructor
    · -- windows are a day apart, and shorter
      intro hd
      simp only [InSlot, InWindow, windowStart, day, second] at hs hin hl hd
      omega
    · rintro rfl
      exact ⟨hin.1.trans hs.1, hs.2.trans_le hin.2⟩
  refine ⟨fun i t hi j => ⟨fun hj => ?_, ?_⟩, fun d hd hd' => ?_, fun t ht => ?_, ?_⟩
  · obtain ⟨hle, hlt⟩ := h.fired i t hi
    obtain ⟨hle', hlt'⟩ := hj
    rcases lt_trichotomy j (k + i) with hji | heq | hji
    · have := slotStart_mono hfit hji
      omega
    · exact heq
    · have := slotStart_mono hfit hji
      omega
  · rintro rfl
    exact h.fired i t hi
  · rw [mul_add, mul_one] at hd'
    refine List.countP_eq_of_block (a := (w.firesPerDay * d - k).toNat) (by omega) fun i t hi => ?_
    rw [hwin i t hi, eq_comm, Int.ediv_eq_iff_of_pos (w.emod_bounds k).1,
      mul_comm d]
    omega
  · obtain ⟨i, hi⟩ := List.mem_iff_getElem?.1 ht
    exact ⟨_, (hwin i t hi _).2 rfl⟩
  · have hin := slot_in_window hfit (k + s'.fired.length)
    exact ⟨_, hin.1.trans h.next.1, h.next.2.trans hin.2⟩

/-- Three slots of three hours, from nine to six. -/
def nineToSix : RandomWindow := ⟨9, 18, by decide, 3, by decide, 0⟩

def clock (hour minute : Int) : Int := (hour * 60 + minute) * (60 * second)

theorem fires_once_a_slot_window :
    ∃ s, (nineToSix.system.guard fun s a => nineToSix.InTime 0 s a.1).run
        ⟨clock 9 30, some 0, []⟩ [(clock 9 31, clock 13 0), (clock 12 0, 0),
          (clock 13 1, clock 17 59), (clock 17 59, clock 33 0)] = some s ∧
      s.fired = [clock 9 30, clock 13 0, clock 17 59] ∧
      s.fired.countP (nineToSix.InWindow 0) = 3 := by
  refine StepSystem.exists_run_and _ ?_ fun s hr hs =>
    (fires_once_a_slot (by decide) rfl rfl (by decide) hr).2.1 0 (by decide) (by rw [hs]; decide)
  decide +kernel

/-- A fire just before three, claimed just after it, leaves the slot from three to six without one;
and the first fire is followed by one in its own slot. -/
theorem slot_left_out :
    (∃ s, nineToSix.system.run ⟨clock 11 59, none, []⟩ [(clock 12 30, clock 14 59),
          (clock 14 0, 0), (clock 15 1, clock 33 0)] = some s ∧
      s.fired = [clock 11 59, clock 14 59] ∧ nineToSix.InSlot 3 s.nextFireAt ∧
      ∀ t ∈ s.nextFireAt :: s.fired, ¬nineToSix.InSlot 2 t) ∧
    ∃ s, nineToSix.system.run ⟨clock 9 30, none, []⟩ [(clock 9 31, clock 11 0)] = some s ∧
      ∀ t ∈ s.nextFireAt :: s.fired, nineToSix.InSlot 0 t := by
  constructor <;> refine StepSystem.exists_run_of_any _ ?_ <;> decide +kernel

lemma exists_windowBounds (w : RandomWindow) (now : Int) :
    ∃ d, w.windowBounds now = (w.windowStart d, w.windowStart d + w.length) ∧
      now < w.windowStart (d + 1) := by
  have := w.startHour.isLt
  have := Fin.val_ne_of_ne w.ne
  refine ⟨if (w.startHour : Int) < w.endHour ∨ w.endHour ≤ now % day / (3600 * second)
    then now / day else now / day - 1, ?_, ?_⟩
  · simp only [windowBounds, windowStart, length, day, second]
    split_ifs <;> simp only [Prod.mk.injEq] <;> omega
  · simp only [windowStart, day, second]
    split_ifs <;> omega

lemma selectSlot_bounds (hw : w.firesPerDay * w.span ≤ w.length) {start : Int} {fired : Bool}
    {slot : Int × Int} (h : w.selectSlot start w.span now fired = some slot) :
    start ≤ slot.1 ∧ slot.2 ≤ start + w.length ∧ slot.1 ≤ slot.2 ∧ now < slot.2 := by
  obtain ⟨i, hi, rfl⟩ := Option.map_eq_some_iff.1 h
  have hlt : i < w.firesPerDay := by simpa using List.mem_of_find?_eq_some hi
  have hnow := List.find?_some hi
  have h0 := w.span_nonneg
  have h1 : 0 ≤ w.span * i := Int.mul_nonneg h0 (by omega)
  have h2 : w.span * (i + 1) ≤ w.span * w.firesPerDay :=
    Int.mul_le_mul_of_nonneg_left (by omega) h0
  rw [mul_add, mul_one, mul_comm w.span w.firesPerDay] at h2
  refine ⟨by omega, by omega, by omega, ?_⟩
  simp only [decide_eq_true_eq] at hnow
  split_ifs at hnow <;> omega

/-- However late a tick comes, it chooses from what is left of one window. -/
lemma choices_bounds (hw : w.firesPerDay * w.span ≤ w.length) (last : Option Int) (now : Int) :
    now ≤ (w.choices last now).1 ∧ ∃ d, w.windowStart d ≤ (w.choices last now).1 ∧
      (w.choices last now).2 ≤ w.windowStart d + w.length := by
  obtain ⟨d, hb, hnow⟩ := w.exists_windowBounds now
  have hs : timedeltaDiv w.length w.firesPerDay = w.span := rfl
  have hd : w.windowStart (d + 1) = w.windowStart d + day := by
    simp only [windowStart]
    ring
  simp only [choices, hb, add_sub_cancel_left, hs]
  cases hsel : w.selectSlot (w.windowStart d) w.span now last.isSome with
  | none =>
    have := w.span_nonneg
    have := slot_in_window hw 0
    simp only [Option.getD_none]
    split_ifs <;> exact ⟨by omega, d + 1, by omega, by omega⟩
  | some slot =>
    obtain ⟨h1, h2, h3, h4⟩ := selectSlot_bounds hw hsel
    simp only [Option.getD_some]
    rcases max_cases slot.1 now with ⟨hm, -⟩ | ⟨hm, -⟩ <;> rw [hm] <;> split_ifs <;>
      exact ⟨by omega, d, by omega, h2⟩

/-- The fires go forward, and those that a tick chose are in windows. -/
structure Forward (w : RandomWindow) (given : Int) (s : Job) : Prop where
  sorted : (s.fired ++ [s.nextFireAt]).Pairwise (· ≤ ·)
  chosen : ∀ t ∈ s.fired ++ [s.nextFireAt], t = given ∨
    ∃ d, w.windowStart d ≤ t + w.offset ∧ t + w.offset ≤ w.windowStart d + w.length

lemma Forward.tick {given choice : Int} (hw : w.firesPerDay * w.span ≤ w.length)
    (h : w.Forward given s) (ht : w.tick s now choice = some s') : w.Forward given s' := by
  simp only [RandomWindow.tick] at ht
  split_ifs at ht with hd hc
  · cases ht
    obtain ⟨hle, d, hlo, hhi⟩ := choices_bounds hw s.lastFiredAt (now + w.offset)
    constructor
    · refine List.pairwise_append.2 ⟨h.sorted, List.pairwise_singleton _ _, fun t ht c hc' => ?_⟩
      have hnext : t ≤ s.nextFireAt := by
        rcases List.mem_append.1 ht with ht | ht
        · exact (List.pairwise_append.1 h.sorted).2.2 t ht _ (List.mem_singleton_self _)
        · exact (List.mem_singleton.1 ht).le
      rw [List.mem_singleton.1 hc']
      show t ≤ choice
      omega
    · intro t ht
      rcases List.mem_append.1 ht with ht | ht
      · exact h.chosen t ht
      · rw [List.mem_singleton.1 ht]
        exact .inr ⟨d, hlo.trans hc.1, hc.2.trans hhi⟩
  · cases ht
    exact h

/-- However late the ticks come, and whatever they choose: the fires never go back, and each that
was chosen by a tick is in a window. -/
theorem fires_forward {ticks : List (Int × Int)} (hfit : w.firesPerDay * w.span ≤ w.length)
    (hfired : s.fired = []) (hrun : w.system.run s ticks = some s') :
    (s'.fired ++ [s'.nextFireAt]).Pairwise (· ≤ ·) ∧
      ∀ t ∈ s'.fired ++ [s'.nextFireAt], t = s.nextFireAt ∨
        ∃ d, w.windowStart d ≤ t + w.offset ∧ t + w.offset ≤ w.windowStart d + w.length := by
  have h : w.Forward s.nextFireAt s' := by
    refine StepSystem.run_invariant _ (fun s a s' h ht => h.tick hfit ht) ?_ hrun
    exact ⟨by simp [hfired], by simp [hfired]⟩
  exact ⟨h.sorted, h.chosen⟩

/-- Of three fires the second is claimed after its slot has ended, and the third a day late. -/
theorem fires_forward_late :
    ∃ s, nineToSix.system.run ⟨clock 11 59, none, []⟩ [(clock 12 30, clock 14 59),
        (clock 15 1, clock 33 0), (clock 60 0, clock 64 0)] = some s ∧
      s.fired = [clock 11 59, clock 14 59, clock 33 0] ∧
      (s.fired ++ [s.nextFireAt]).Pairwise (· ≤ ·) := by
  refine StepSystem.exists_run_and _ ?_ fun s hr _ => (fires_forward (by decide) rfl hr).1
  decide +kernel

end RandomWindow

end ThreeTears
