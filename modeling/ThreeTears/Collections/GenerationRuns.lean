import ThreeTears.Lib.Families
import ThreeTears.Lib.StepSystem
import ThreeTears.Collections.Generation

/-!
# What a mark stands for

Any number of marks of one table in one process, each told of advances by the broadcasts of their
rows, by the process's own writes and by another mark it adopts. A mark judges a generation current
only if every row of every advance since the mark it last took was heard, or the advance was its
own.
-/

namespace ThreeTears

open Function Finset Dict StepSystem TableMark

/-- Which rows of which advances a mark was told of, and which advances were the process's own. -/
structure Told where
  rows : Text × Nat → Finset Nat
  own : Text × Nat → Bool

namespace Told

def nothing : Told := ⟨fun _ => ∅, fun _ => false⟩

def hear (told : Told) (advance : Text × Nat) (row : Nat) : Told :=
  { told with rows := update told.rows advance (insert row (told.rows advance)) }

def account (told : Told) (advance : Text × Nat) : Told :=
  { told with own := update told.own advance true }

def only (told : Told) (incarnation : Option Text) : Told where
  rows advance := if some advance.1 = incarnation then told.rows advance else ∅
  own advance := if some advance.1 = incarnation then told.own advance else false

/-- Every row of the advance was told of, or the advance was the process's own. -/
def Covers (told : Told) (rowsOf : Text × Nat → Nat) (advance : Text × Nat) : Prop :=
  told.own advance = true ∨ ∀ row < rowsOf advance, row ∈ told.rows advance

instance (told : Told) (rowsOf advance) : Decidable (told.Covers rowsOf advance) :=
  inferInstanceAs (Decidable (_ ∨ ∀ row < rowsOf advance, row ∈ told.rows advance))

structure Le (told told' : Told) : Prop where
  rows : ∀ advance, told.rows advance ⊆ told'.rows advance
  own : ∀ advance, told.own advance = true → told'.own advance = true

lemma Covers.mono {told told' : Told} {rowsOf : Text × Nat → Nat} {advance : Text × Nat}
    (h : told.Covers rowsOf advance) (hle : told.Le told') : told'.Covers rowsOf advance :=
  h.imp (hle.own advance) fun hr row hrow => hle.rows advance (hr row hrow)

lemma le_hear (told : Told) (advance : Text × Nat) (row : Nat) :
    told.Le (told.hear advance row) := by
  refine ⟨?_, fun _ hown => hown⟩
  intro advance' row' hr'
  rcases eq_or_ne advance' advance with rfl | he
  · simpa [hear] using .inr hr'
  · simpa [hear, he] using hr'

lemma le_account (told : Told) (advance : Text × Nat) : told.Le (told.account advance) := by
  refine ⟨fun _ => Finset.Subset.refl _, ?_⟩
  intro advance' hown
  by_cases he : advance' = advance
  · simp [account, he]
  · simpa [account, he] using hown

end Told

/-- The mark of one `GenerationMarks`, with the generation it last took, what it was told since it
last took one of another incarnation, and whether it ever lacked room for an advance. -/
structure Follower where
  mark : Option TableMark
  base : Option (Option Text × Nat)
  since : Told
  exceeded : Bool

inductive MarksAct (P : Type*)
  | follow (p : P)
  | unfollow (p : P)
  | hear (p : P) (advance : Text × Nat) (row : Nat)
  | account (p : P) (advance : Text × Nat)
  | adopt (p q : P)
  | settle (p : P) (token : Option Text)

namespace Follower

def new : Follower := ⟨none, none, .nothing, false⟩

def told (f : Follower) (record : TableMark → TableMark) (since : Told) : Follower :=
  match f.mark with
  | none => f
  | some mark =>
    { f with
      mark := some (record mark)
      since := since
      exceeded := f.exceeded || (record mark).overflowed }

def adopt (theirs : Follower) : Follower :=
  match theirs.mark with
  | none => { new with mark := some (.adopt none) }
  | some mark => { theirs with mark := some (.adopt (some mark)) }

/-- `settle` raises if the table is not followed, and for a count that `int` refuses. -/
def settle (f : Follower) (token : Option Text) : Option Follower :=
  f.mark.bind fun mark =>
    match TableMark.parts token, mark.settle token with
    | .ok generation, .ok (settled, verdict) =>
      if verdict.drops then
        some { f with
          mark := some settled
          base := some generation
          since := f.since.only generation.1 }
      else some { f with mark := some settled }
    | _, _ => none

lemma settle_eq_some {f f' : Follower} {token : Option Text} (h : f.settle token = some f') :
    ∃ mark generation, f.mark = some mark ∧
      ((mark.verdict generation).drops = true ∧
          f' = { f with
            mark := some (mark.retake generation.1 generation.2)
            base := some generation
            since := f.since.only generation.1 } ∨
        (mark.verdict generation).drops = false ∧ f' = { f with mark := some mark }) := by
  obtain ⟨mark, hm, h⟩ := Option.bind_eq_some_iff.1 h
  cases hp : TableMark.parts token with
  | error => simp [hp] at h
  | ok generation =>
    simp only [hp, TableMark.settle_of_parts hp] at h
    refine ⟨mark, generation, hm, ?_⟩
    split_ifs at h with hd
    · exact .inl ⟨hd, (Option.some.inj h).symm⟩
    · exact .inr ⟨Bool.not_eq_true _ ▸ hd, (Option.some.inj h).symm⟩

end Follower

namespace GenerationMarks

variable {P : Type*} [DecidableEq P] (rowsOf : Text × Nat → Nat)

/-- One call. A row broadcast is delivered at most once and carries its advance's row count. -/
def step (s : P → Follower) : MarksAct P → Option (P → Follower)
  | .follow p => some (update s p { s p with mark := some ((s p).mark.getD .unsighted) })
  | .unfollow p => some (update s p .new)
  | .hear p advance row =>
    if advance.1 ≠ [] ∧ row < rowsOf advance ∧ row ∉ (s p).since.rows advance then
      some (update s p ((s p).told
        (fun mark => mark.hear (generationToken advance.1 advance.2) (rowsOf advance))
        ((s p).since.hear advance row)))
    else none
  | .account p advance =>
    if advance.1 ≠ [] then
      some (update s p ((s p).told (fun mark => mark.account (generationToken advance.1 advance.2))
        ((s p).since.account advance)))
    else none
  | .adopt p q => some (update s p (s q).adopt)
  | .settle p token => ((s p).settle token).map fun f => update s p f

def system : StepSystem (P → Follower) (MarksAct P) := ⟨step rowsOf⟩

def start : P → Follower := fun _ => .new

/-- No row of an advance was heard when the process accounts for it: a registry skips its own
broadcasts. -/
def OwnUnheard (s : P → Follower) : MarksAct P → Prop
  | .account p advance => (s p).since.rows advance = ∅
  | _ => True

instance (s : P → Follower) (a : MarksAct P) : Decidable (OwnUnheard s a) := by
  unfold OwnUnheard
  split <;> infer_instance

end GenerationMarks

/-! ### Soundness -/

/-- The advances after the generation the mark took are covered up to where it stands, and what it
counts of an advance was told. -/
structure Sound (rowsOf : Text × Nat → Nat) (base : Option (Option Text × Nat)) (since : Told)
    (mark : TableMark) : Prop where
  rows : ∀ advance, ∀ row ∈ since.rows advance, row < rowsOf advance
  sighted : base.isSome = true → mark.sighted = true
  base : mark.sighted = true → ∃ count, base = some (mark.incarnation, count) ∧
    count ≤ mark.accounted ∧ ∀ incarnation, mark.incarnation = some incarnation →
      ∀ c, count < c → c ≤ mark.accounted → since.Covers rowsOf (incarnation, c)
  heard : ∀ advance heard, mark.heard.get advance = some heard → 0 < heard.rows ∧
    (since.own advance = true ∨ heard.of = rowsOf advance ∧ heard.rows ≤ (since.rows advance).card)

variable {rowsOf : Text × Nat → Nat} {base : Option (Option Text × Nat)} {since since' : Told}
  {mark : TableMark} {advance : Text × Nat} {heard : Heard}

namespace Sound

variable (h : Sound rowsOf base since mark)
include h

lemma covers_of_full (hg : mark.heard.get advance = some heard) (hfu : heard.of ≤ heard.rows) :
    since.Covers rowsOf advance := by
  rcases (h.heard advance heard hg).2 with hown | ⟨hof, hr⟩
  · exact .inl hown
  right
  have hu : since.rows advance ⊆ Finset.range (rowsOf advance) :=
    fun row hrow => mem_range.2 (h.rows advance row hrow)
  have hc : (Finset.range (rowsOf advance)).card ≤ (since.rows advance).card := by
    rw [card_range]
    omega
  intro row hrow
  rw [eq_of_subset_of_card_le hu hc]
  exact mem_range.2 hrow

lemma moveOn : Sound rowsOf base since mark.moveOn := by
  apply moveOn_induction h
  intro m inc following hm hsi hi hg hu
  obtain ⟨cou, hb, hle, hcov⟩ := hm.base hsi
  refine ⟨hm.rows, hm.sighted, fun _ => ⟨cou, hb, Nat.le_succ_of_le hle, ?_⟩, ?_⟩
  · intro inc' hi' c hlt hc
    rcases Nat.lt_or_eq_of_le hc with hc | rfl
    · exact hcov inc' hi' c hlt (Nat.le_of_lt_succ hc)
    rw [show m.incarnation = some inc' from hi'] at hi
    cases hi
    exact hm.covers_of_full hg hu
  intro advance heard hh
  by_cases hd : advance = (inc, m.accounted + 1)
  · simp [hd] at hh
  rw [get_erase_of_ne hd] at hh
  exact hm.heard advance heard hh

lemma mono (hle : since.Le since')
    (hr : ∀ advance, ∀ row ∈ since'.rows advance, row < rowsOf advance) :
    Sound rowsOf base since' mark where
  rows := hr
  sighted := h.sighted
  base hsi := by
    obtain ⟨cou, hb, ho, hcov⟩ := h.base hsi
    refine ⟨cou, hb, ho, ?_⟩
    intro inc hi c hlt hc
    exact (hcov inc hi c hlt hc).mono hle
  heard advance heard hg := by
    obtain ⟨hpos, he⟩ := h.heard advance heard hg
    refine ⟨hpos, ?_⟩
    rcases he with hown | ⟨hof, hr⟩
    · exact .inl (hle.own advance hown)
    · exact .inr ⟨hof, le_trans hr (card_le_card (hle.rows advance))⟩

lemma record (hle : since.Le since')
    (hb : ∀ advance, ∀ row ∈ since'.rows advance, row < rowsOf advance)
    (hd : advance.1 ≠ []) {rows of : Nat} (hpos : 0 < rows)
    (he : since'.own advance = true ∨ of = rowsOf advance ∧
      (since.rows advance).card + rows ≤ (since'.rows advance).card) :
    Sound rowsOf base since' (mark.record (generationToken advance.1 advance.2) rows of) := by
  have h' := h.mono hle hb
  have hse : ∀ heard : Heard, 0 < heard.rows →
      (since'.own advance = true ∨ heard.of = rowsOf advance ∧
        heard.rows ≤ (since'.rows advance).card) →
      Sound rowsOf base since' { mark with heard := mark.heard.set advance heard } := by
    intro heard hh ht
    refine ⟨hb, h'.sighted, h'.base, ?_⟩
    intro advance' he' hg
    rcases eq_or_ne advance' advance with rfl | hq
    · rw [get_set_self] at hg
      cases hg
      exact ⟨hh, ht⟩
    rw [get_set_of_ne hq] at hg
    exact h'.heard advance' he' hg
  rcases mark.record_cases hd rows of with
    ⟨-, hq⟩ | ⟨-, heard, hg, hq⟩ | ⟨-, hg, hq | hq⟩
  all_goals rw [hq]
  · exact h'
  · obtain ⟨-, ht⟩ := h.heard advance heard hg
    refine (hse _ (by simp only; omega) ?_).moveOn
    rcases he with hown | ⟨-, hc⟩
    · exact .inl hown
    rcases ht with hown | ⟨hof, hr⟩
    · exact .inl (hle.own advance hown)
    · exact .inr ⟨hof, by simp only; omega⟩
  · exact { h' with }
  refine (hse _ hpos ?_).moveOn
  rcases he with hown | ⟨hof, hc⟩
  · exact .inl hown
  · exact .inr ⟨hof, by simp only; omega⟩

omit h in
lemma unsighted (rowsOf : Text × Nat → Nat) : Sound rowsOf none .nothing .unsighted where
  rows _ _ hrow := by simp [Told.nothing] at hrow
  sighted hb := by cases hb
  base hi := by simp [TableMark.unsighted] at hi
  heard _ _ hg := by simp [TableMark.unsighted] at hg

lemma retake (inc : Option Text) (cou : Nat) : Sound rowsOf (some (inc, cou)) (since.only inc)
      (mark.retake inc cou) := by
  refine moveOn ⟨?_, fun _ => rfl, ?_, ?_⟩
  · intro advance row hrow
    simp only [Told.only] at hrow
    split_ifs at hrow
    · exact h.rows advance row hrow
    · simp at hrow
  · intro _
    refine ⟨cou, rfl, le_rfl, ?_⟩
    intro _ _ c hlt hle
    exact absurd hle (not_le.2 hlt)
  intro advance heard hg
  simp only [get_filter] at hg
  split_ifs at hg with hk
  simp only [decide_eq_true_eq] at hk
  simpa [Told.only, hk.1] using h.heard advance heard hg

end Sound

/-! ### Completeness -/

/-- The mark counts every row it was told of an advance it does not account for yet. -/
structure Exact (rowsOf : Text × Nat → Nat) (since : Told) (mark : TableMark) : Prop where
  own : ∀ advance, ¬ mark.Counts advance → since.own advance = true →
    ∃ heard, mark.heard.get advance = some heard ∧ heard.of ≤ heard.rows
  heard : ∀ advance, ¬ mark.Counts advance → since.own advance = false →
    (since.rows advance).Nonempty → ∃ heard, mark.heard.get advance = some heard ∧
      heard.of = rowsOf advance ∧ (since.rows advance).card ≤ heard.rows

namespace Exact

variable (h : Exact rowsOf since mark)
include h

lemma moveOn : Exact rowsOf since mark.moveOn := by
  apply moveOn_induction h
  intro m inc following hm hsi hi _ _
  have hold : ∀ advance, ¬ Counts { m with
        heard := m.heard.erase (inc, m.accounted + 1)
        accounted := m.accounted + 1 } advance →
      ¬ m.Counts advance ∧ advance ≠ (inc, m.accounted + 1) := by
    intro advance hc
    refine ⟨fun hold => hc ⟨hold.1, hold.2.1, Nat.le_succ_of_le hold.2.2⟩, ?_⟩
    rintro rfl
    exact hc ⟨hsi, hi, le_rfl⟩
  constructor
  · intro advance hc hown
    obtain ⟨hc, he⟩ := hold advance hc
    rw [get_erase_of_ne he]
    exact hm.own advance hc hown
  intro advance hc hown hr
  obtain ⟨hc, he⟩ := hold advance hc
  rw [get_erase_of_ne he]
  exact hm.heard advance hc hown hr

lemma of_counts (hc : mark.Counts advance)
    (ho : ∀ advance' ≠ advance, since'.own advance' = since.own advance' ∧
      since'.rows advance' = since.rows advance') : Exact rowsOf since' mark := by
  have he : ∀ advance', ¬ mark.Counts advance' → advance' ≠ advance := by
    rintro advance' hno rfl
    exact hno hc
  constructor
  · intro advance' hno
    rw [(ho advance' (he advance' hno)).1]
    exact h.own advance' hno
  intro advance' hno
  rw [(ho advance' (he advance' hno)).1, (ho advance' (he advance' hno)).2]
  exact h.heard advance' hno

lemma set (ho : ∀ advance' ≠ advance, since'.own advance' = since.own advance' ∧
      since'.rows advance' = since.rows advance')
    (hown : since'.own advance = true → heard.of ≤ heard.rows)
    (hh : since'.own advance = false →
      heard.of = rowsOf advance ∧ (since'.rows advance).card ≤ heard.rows) :
    Exact rowsOf since' { mark with heard := mark.heard.set advance heard } := by
  constructor
  · intro advance' hno ho'
    rcases eq_or_ne advance' advance with rfl | he
    · exact ⟨heard, get_set_self _ _ _, hown ho'⟩
    rw [(ho advance' he).1] at ho'
    rw [get_set_of_ne he]
    exact h.own advance' hno ho'
  intro advance' hno ho' hr'
  rcases eq_or_ne advance' advance with rfl | he
  · exact ⟨heard, get_set_self _ _ _, hh ho'⟩
  rw [(ho advance' he).1] at ho'
  rw [(ho advance' he).2] at hr' ⊢
  rw [get_set_of_ne he]
  exact h.heard advance' hno ho' hr'

lemma of_get_eq_none (ho : ¬ mark.Counts advance) (hg : mark.heard.get advance = none) :
    since.own advance = false ∧ since.rows advance = ∅ := by
  have hown : since.own advance = false := by
    rw [← Bool.not_eq_true]
    intro hown
    obtain ⟨heard, hsome, -⟩ := h.own advance ho hown
    cases hg.symm.trans hsome
  refine ⟨hown, not_nonempty_iff_eq_empty.1 ?_⟩
  intro hr
  obtain ⟨heard, hsome, -⟩ := h.heard advance ho hown hr
  cases hg.symm.trans hsome

variable (hs : Sound rowsOf base since mark)
include hs

omit h in
lemma rows_nonempty (hg : mark.heard.get advance = some heard) (hown : since.own advance = false) :
    (since.rows advance).Nonempty := by
  obtain ⟨hpos, he⟩ := hs.heard advance heard hg
  rcases he with ho' | ⟨-, hr⟩
  · rw [hown] at ho'
    cases ho'
  · exact card_pos.1 (lt_of_lt_of_le hpos hr)

lemma hear (hd : advance.1 ≠ []) {row : Nat} (hrow : row < rowsOf advance)
    (hnew : row ∉ since.rows advance) (hr :
      (mark.hear (generationToken advance.1 advance.2) (rowsOf advance)).overflowed = false) :
    Exact rowsOf (since.hear advance row)
      (mark.hear (generationToken advance.1 advance.2) (rowsOf advance)) := by
  have ho : ∀ advance' ≠ advance, (since.hear advance row).own advance' = since.own advance' ∧
      (since.hear advance row).rows advance' = since.rows advance' := by
    intro advance' hne
    simp [Told.hear, hne]
  have hc : ((since.hear advance row).rows advance).card = (since.rows advance).card + 1 := by
    simp [Told.hear, card_insert_of_notMem hnew]
  unfold TableMark.hear at hr ⊢
  rcases mark.record_cases hd 1 (rowsOf advance) with
    ⟨hk, hq⟩ | ⟨hno, heard, hg, hq⟩ | ⟨hno, hg, hq | hq⟩
  all_goals rw [hq] at hr ⊢
  · rcases hk with hof | hcn
    · omega
    · exact h.of_counts hcn ho
  · refine (h.set ho ?_ ?_).moveOn
    · intro hown
      obtain ⟨he', hg', hu⟩ := h.own advance hno hown
      cases hg.symm.trans hg'
      exact Nat.le_succ_of_le hu
    intro hown
    obtain ⟨he', hg', hof, hro⟩ := h.heard advance hno hown (rows_nonempty hs hg hown)
    cases hg.symm.trans hg'
    exact ⟨hof, by simp only [hc]; omega⟩
  · cases hr
  obtain ⟨hown, he⟩ := h.of_get_eq_none hno hg
  refine (h.set ho ?_ ?_).moveOn
  · intro ho'
    rw [show (since.hear advance row).own advance = since.own advance from rfl, hown] at ho'
    cases ho'
  intro _
  exact ⟨rfl, by simp [hc, he]⟩

lemma account (hd : advance.1 ≠ []) (hu : since.rows advance = ∅)
    (hr : (mark.account (generationToken advance.1 advance.2)).overflowed = false) :
    Exact rowsOf (since.account advance) (mark.account (generationToken advance.1 advance.2)) := by
  have ho : ∀ advance' ≠ advance, (since.account advance).own advance' = since.own advance' ∧
      (since.account advance).rows advance' = since.rows advance' := by
    intro advance' hne
    simp [Told.account, hne]
  have hown : (since.account advance).own advance = true := by simp [Told.account]
  have hnv : (since.account advance).own advance = false → ∀ p : Prop, p := by
    intro hfa
    rw [hown] at hfa
    cases hfa
  unfold TableMark.account at hr ⊢
  rcases mark.record_cases hd 1 1 with
    ⟨hk, he⟩ | ⟨hno, heard, hg, he⟩ | ⟨hno, hg, he | he⟩
  all_goals rw [he] at hr ⊢
  · rcases hk with hof | hc
    · omega
    · exact h.of_counts hc ho
  · refine (h.set ho (fun _ => ?_) fun hfa => hnv hfa _).moveOn
    cases ho' : since.own advance with
    | true =>
      obtain ⟨he', hg', hfu⟩ := h.own advance hno ho'
      cases hg.symm.trans hg'
      exact Nat.le_succ_of_le hfu
    | false =>
      have hro := rows_nonempty hs hg ho'
      rw [hu] at hro
      exact absurd hro not_nonempty_empty
  · cases hr
  · exact (h.set ho (fun _ => Nat.le_refl 1) fun hfa => hnv hfa _).moveOn

omit hs

lemma full_of_covers (ho : ¬ mark.Counts advance)
    (hpos : 0 < rowsOf advance) (hcov : since.Covers rowsOf advance) :
    ∃ heard, mark.heard.get advance = some heard ∧ heard.of ≤ heard.rows := by
  cases hown : since.own advance with
  | true => exact h.own advance ho hown
  | false =>
    rcases hcov with ho' | hr
    · rw [hown] at ho'
      cases ho'
    obtain ⟨heard, hg, hof, hc⟩ := h.heard advance ho hown ⟨0, hr 0 hpos⟩
    refine ⟨heard, hg, ?_⟩
    calc heard.of = (Finset.range (rowsOf advance)).card := by rw [card_range, hof]
      _ ≤ (since.rows advance).card := card_le_card fun row hrow => hr row (mem_range.1 hrow)
      _ ≤ heard.rows := hc

omit h in
lemma unsighted (rowsOf : Text × Nat → Nat) : Exact rowsOf .nothing .unsighted where
  own _ _ hown := by simp [Told.nothing] at hown
  heard _ _ _ hr := by simp [Told.nothing] at hr

lemma retake {inc : Option Text} {cou : Nat}
    (hbehind : mark.sighted = true → mark.incarnation = inc → mark.accounted ≤ cou) :
    Exact rowsOf (since.only inc) (mark.retake inc cou) := by
  have hw : ∀ advance : Text × Nat, ¬ TableMark.Counts
        ⟨true, inc, cou, mark.heard.filter fun advance => some advance.1 = inc ∧ cou < advance.2,
          false⟩ advance →
      some advance.1 = inc → cou < advance.2 ∧ ¬ mark.Counts advance := by
    intro advance ho hi
    have hlt : cou < advance.2 := by
      by_contra hle
      exact ho ⟨rfl, hi.symm, not_lt.1 hle⟩
    refine ⟨hlt, ?_⟩
    rintro ⟨hsi, hi', hle⟩
    have hco := hbehind hsi (hi'.trans hi)
    omega
  apply moveOn
  constructor
  · intro advance ho hown
    simp only [Told.only] at hown
    split_ifs at hown with hi
    obtain ⟨hlt, ho⟩ := hw advance ho hi
    obtain ⟨heard, hg, hu⟩ := h.own advance ho hown
    exact ⟨heard, by simp [get_filter, hi, hlt, hg], hu⟩
  intro advance ho hown hr
  simp only [Told.only] at hown hr
  by_cases hi : some advance.1 = inc
  · rw [if_pos hi] at hown hr
    obtain ⟨hlt, ho⟩ := hw advance ho hi
    obtain ⟨heard, hg, hof, hc⟩ := h.heard advance ho hown hr
    refine ⟨heard, by simp [get_filter, hi, hlt, hg], hof, ?_⟩
    simpa [Told.only, hi] using hc
  rw [if_neg hi] at hr
  exact absurd hr not_nonempty_empty

end Exact

namespace Follower

def markOr (f : Follower) : TableMark := f.mark.getD .unsighted

def Sound (rowsOf : Text × Nat → Nat) (f : Follower) : Prop :=
  ThreeTears.Sound rowsOf f.base f.since f.markOr

/-- As long as there was room, the mark counts all it was told and has moved as far as it can. -/
def Exact (rowsOf : Text × Nat → Nat) (f : Follower) : Prop :=
  f.exceeded = false → f.markOr.overflowed = false ∧ f.markOr.Stuck ∧
    ThreeTears.Exact rowsOf f.since f.markOr

variable {f f' : Follower} {token : Option Text}

lemma sound_new (rowsOf : Text × Nat → Nat) : new.Sound rowsOf := .unsighted rowsOf

lemma exact_new (rowsOf : Text × Nat → Nat) : new.Exact rowsOf := by
  refine fun _ => ⟨rfl, ?_, .unsighted rowsOf⟩
  intro hi
  cases hi

variable (h : f.Sound rowsOf)
include h

lemma Sound.adopt : f.adopt.Sound rowsOf := by
  unfold Follower.adopt
  split
  next => exact .unsighted rowsOf
  next hm =>
    rw [Follower.Sound, markOr, hm] at h
    exact h

omit h in
lemma Exact.adopt (h : f.Exact rowsOf) : f.adopt.Exact rowsOf := by
  unfold Follower.adopt
  split
  next => exact exact_new rowsOf
  next hm =>
    rw [Follower.Exact, markOr, hm] at h
    exact h

lemma Sound.settle (he : f.settle token = some f') : f'.Sound rowsOf := by
  obtain ⟨mark, generation, hm, ⟨-, rfl⟩ | ⟨-, rfl⟩⟩ := settle_eq_some he
  all_goals rw [Follower.Sound, markOr, hm] at h
  · exact h.retake _ _
  · exact h

omit h in
lemma Exact.settle (h : f.Exact rowsOf) (hse : f.settle token = some f') : f'.Exact rowsOf := by
  obtain ⟨mark, generation, hm, ⟨hd, rfl⟩ | ⟨-, rfl⟩⟩ := settle_eq_some hse
  all_goals rw [Follower.Exact, markOr, hm] at h
  · intro hr
    obtain ⟨ho, -, he⟩ := h hr
    refine ⟨TableMark.overflowed_retake, TableMark.stuck_retake, he.retake ?_⟩
    intro hsi hi
    by_contra hlt
    have hc : mark.verdict generation = .current :=
      TableMark.verdict_eq_current_iff.2 ⟨hsi, hi, le_of_lt (not_le.1 hlt), ho⟩
    rw [hc] at hd
    cases hd
  · exact h

variable {row : Nat}

lemma Sound.hear (hd : advance.1 ≠ [])
    (hrow : row < rowsOf advance) (hnew : row ∉ f.since.rows advance) :
    (f.told (fun mark => mark.hear (generationToken advance.1 advance.2) (rowsOf advance))
      (f.since.hear advance row)).Sound rowsOf := by
  unfold Follower.told
  split
  next => exact h
  next hm =>
    rw [Follower.Sound, markOr, hm] at h
    refine ThreeTears.Sound.record h (f.since.le_hear _ row) ?_ hd Nat.one_pos
      (.inr ⟨rfl, ?_⟩)
    · intro advance' row' hr'
      rcases eq_or_ne advance' advance with rfl | he
      · simp only [Told.hear, update_self, mem_insert] at hr'
        rcases hr' with rfl | hr'
        · exact hrow
        · exact h.rows _ row' hr'
      simp only [Told.hear, update_of_ne he] at hr'
      exact h.rows advance' row' hr'
    · simp [Told.hear, card_insert_of_notMem hnew]

lemma Sound.account (hd : advance.1 ≠ []) :
    (f.told (fun mark => mark.account (generationToken advance.1 advance.2))
      (f.since.account advance)).Sound rowsOf := by
  unfold Follower.told
  split
  next => exact h
  next hm =>
    rw [Follower.Sound, markOr, hm] at h
    exact ThreeTears.Sound.record h (f.since.le_account _) h.rows hd Nat.one_pos
      (.inl (by simp [Told.account]))

omit h

lemma Exact.hear (h : f.Exact rowsOf) (hs : f.Sound rowsOf) (hd : advance.1 ≠ [])
    (hrow : row < rowsOf advance) (hnew : row ∉ f.since.rows advance) :
    (f.told (fun mark => mark.hear (generationToken advance.1 advance.2) (rowsOf advance))
      (f.since.hear advance row)).Exact rowsOf := by
  unfold told
  split
  next => exact h
  next hm =>
    rw [Exact, markOr, hm] at h
    rw [Sound, markOr, hm] at hs
    intro hr
    obtain ⟨hr, ho⟩ := Bool.or_eq_false_iff.1 hr
    obtain ⟨-, ht, he⟩ := h hr
    exact ⟨ho, ht.record hd ho, he.hear hs hd hrow hnew ho⟩

lemma Exact.account (h : f.Exact rowsOf) (hs : f.Sound rowsOf) (hd : advance.1 ≠ [])
    (hu : f.since.rows advance = ∅) :
    (f.told (fun mark => mark.account (generationToken advance.1 advance.2))
      (f.since.account advance)).Exact rowsOf := by
  unfold told
  split
  next => exact h
  next hm =>
    rw [Exact, markOr, hm] at h
    rw [Sound, markOr, hm] at hs
    intro hr
    obtain ⟨hr, ho⟩ := Bool.or_eq_false_iff.1 hr
    obtain ⟨-, ht, he⟩ := h hr
    exact ⟨ho, ht.record hd ho, he.account hs hd hu ho⟩

end Follower

namespace GenerationMarks

variable {P : Type*} [DecidableEq P] {rowsOf : Text × Nat → Nat} {s s' : P → Follower}
  {a : MarksAct P}

lemma sound_step (h : ∀ p, (s p).Sound rowsOf) (ht : step rowsOf s a = some s') :
    ∀ p, (s' p).Sound rowsOf := by
  cases a with try cases ht
  | follow p => exact forall_update h (h p)
  | unfollow => exact forall_update h (Follower.sound_new rowsOf)
  | hear p =>
    simp only [step] at ht
    split_ifs at ht with hc
    cases ht
    exact forall_update h ((h p).hear hc.1 hc.2.1 hc.2.2)
  | account p =>
    simp only [step] at ht
    split_ifs at ht with hi
    cases ht
    exact forall_update h ((h p).account hi)
  | adopt _ q => exact forall_update h (h q).adopt
  | settle p =>
    obtain ⟨f, hf, rfl⟩ := Option.map_eq_some_iff.1 ht
    exact forall_update h ((h p).settle hf)

lemma exact_step (h : ∀ p, (s p).Exact rowsOf) (hs : ∀ p, (s p).Sound rowsOf)
    (hu : OwnUnheard s a) (ht : step rowsOf s a = some s') : ∀ p, (s' p).Exact rowsOf := by
  cases a with try cases ht
  | follow p => exact forall_update h (h p)
  | unfollow => exact forall_update h (Follower.exact_new rowsOf)
  | hear p =>
    simp only [step] at ht
    split_ifs at ht with hc
    cases ht
    exact forall_update h ((h p).hear (hs p) hc.1 hc.2.1 hc.2.2)
  | account p =>
    simp only [step] at ht
    split_ifs at ht with hi
    cases ht
    exact forall_update h ((h p).account (hs p) hi hu)
  | adopt _ q => exact forall_update h (h q).adopt
  | settle p =>
    obtain ⟨f, hf, rfl⟩ := Option.map_eq_some_iff.1 ht
    exact forall_update h ((h p).settle hf)

/-- A table is judged current only if every advance since the generation its mark was last taken
from is covered by what the mark was told; and it is judged so, if every advance has rows, the
process accounts for none it heard rows of and the mark always had room. -/
theorem judge_current {acts : List (MarksAct P)} {p : P} {mark : TableMark} {incarnation : Text}
    {n : Nat} (hrun : (system rowsOf).run start acts = some s) (hmark : (s p).mark = some mark)
    (hinc : incarnation ≠ []) : (mark.judge (some (generationToken incarnation n)) = .ok .current →
      ∃ count, (s p).base = some (some incarnation, count) ∧
        ∀ c, count < c → c ≤ n → (s p).since.Covers rowsOf (incarnation, c)) ∧
    ((∀ advance, 0 < rowsOf advance) →
      ((system rowsOf).guard OwnUnheard).run start acts = some s → (s p).exceeded = false →
      ∀ count, (s p).base = some (some incarnation, count) →
        (∀ c, count < c → c ≤ n → (s p).since.Covers rowsOf (incarnation, c)) →
        mark.judge (some (generationToken incarnation n)) = .ok .current) := by
  have hso : ∀ p, (s p).Sound rowsOf :=
    run_invariant _ (I := fun s : P → Follower => ∀ p, (s p).Sound rowsOf)
      (fun _ _ _ h ht => sound_step h ht) (fun _ => Follower.sound_new rowsOf) hrun
  have hs : Sound rowsOf (s p).base (s p).since mark := by
    have hp := hso p
    rw [Follower.Sound, Follower.markOr, hmark] at hp
    exact hp
  rw [judge_eq_current_iff (parts_generationToken hinc n)]
  constructor
  · rintro ⟨hi, hi', hle, -⟩
    obtain ⟨count, hb, -, hcov⟩ := hs.base hi
    rw [hi'] at hb
    exact ⟨count, hb, fun c hlt hc => hcov incarnation hi' c hlt (le_trans hc hle)⟩
  intro hr hg hro count hb hcov
  have hx : ∀ p, (s p).Sound rowsOf ∧ (s p).Exact rowsOf := by
    refine run_guard_invariant _
      (I := fun s : P → Follower => ∀ p, (s p).Sound rowsOf ∧ (s p).Exact rowsOf)
      (fun s a s' h hu ht => ?_)
      (fun _ => ⟨Follower.sound_new rowsOf, Follower.exact_new rowsOf⟩) hg
    intro p
    exact ⟨sound_step (fun p => (h p).1) ht p,
      exact_step (fun p => (h p).2) (fun p => (h p).1) hu ht p⟩
  obtain ⟨ho, hsu, he⟩ := (hx p).2 hro
  rw [Follower.markOr, hmark] at ho hsu he
  have hi : mark.sighted = true := hs.sighted (by rw [hb]; rfl)
  obtain ⟨cou', hb', hle, -⟩ := hs.base hi
  rw [hb] at hb'
  obtain ⟨hi', rfl⟩ := Prod.mk.inj (Option.some.inj hb')
  refine ⟨hi, hi'.symm, ?_, ho⟩
  by_contra hlt
  have hnext : mark.accounted + 1 ≤ n := not_le.1 hlt
  have hno : ¬ mark.Counts (incarnation, mark.accounted + 1) :=
    fun hcn => absurd hcn.2.2 (Nat.not_succ_le_self _)
  obtain ⟨heard, hge, hfu⟩ :=
    he.full_of_covers hno (hr _) (hcov _ (Nat.lt_succ_of_le hle) hnext)
  exact absurd (hsu hi incarnation hi'.symm heard hge) (not_lt.2 hfu)

/-- Three advances of two rows: the mark takes the first, the second is the process's own, and the
rows of the third arrive before the second is accounted for. -/
def outOfOrder : List (MarksAct Unit) :=
  [.follow (), .settle () (some (generationToken ['a'] 1)), .hear () (['a'], 3) 1,
    .hear () (['a'], 3) 0, .account () (['a'], 2)]

theorem judge_current_outOfOrder :
    ∃ s mark, ((system fun _ => 2).guard OwnUnheard).run start outOfOrder = some s ∧
      (s ()).mark = some mark ∧ (s ()).base = some (some ['a'], 1) ∧
      mark.judge (some (generationToken ['a'] 3)) = .ok .current := by
  obtain ⟨s, hr, hm, hb, ho, hown, hh⟩ : ∃ s,
      ((system fun _ => 2).guard OwnUnheard).run start outOfOrder = some s ∧
        (s ()).mark.isSome = true ∧ (s ()).base = some (some ['a'], 1) ∧
        (s ()).exceeded = false ∧ (s ()).since.Covers (fun _ => 2) (['a'], 2) ∧
        (s ()).since.Covers (fun _ => 2) (['a'], 3) :=
    exists_run_of_any _ rfl
  obtain ⟨mark, hm⟩ := Option.isSome_iff_exists.1 hm
  have hc := judge_current (n := 3) (run_of_run_guard _ hr) hm
    (List.cons_ne_nil 'a' [])
  refine ⟨s, mark, hr, hm, hb, hc.2 (fun _ => Nat.two_pos) hr ho 1 hb ?_⟩
  intro c hlt hle
  obtain rfl | rfl : c = 2 ∨ c = 3 := by omega
  · exact hown
  · exact hh

/-- The row of the second advance is heard under the mark of the first; the store is replaced, and
the first store comes back. -/
def replacedInBetween : List (MarksAct Unit) :=
  [.follow (), .settle () (some (generationToken ['a'] 0)), .hear () (['a'], 2) 0,
    .settle () (some (generationToken ['b'] 0)), .settle () (some (generationToken ['a'] 1))]

/-- The only row of the only advance since the mark was heard, and the mark no longer knows. -/
theorem judge_missed_replacedInBetween :
    ∃ s, (system fun _ => 1).run start replacedInBetween = some s ∧
      (s ()).base = some (some ['a'], 1) ∧ (s ()).exceeded = false ∧
      .hear () (['a'], 2) 0 ∈ replacedInBetween ∧
      (s ()).mark.map (fun mark => mark.judge (some (generationToken ['a'] 2))) =
        some (.ok .missed) := by
  obtain ⟨s, hu, hb, hr, hju⟩ : ∃ s, (system fun _ => 1).run start replacedInBetween = some s ∧
        (s ()).base = some (some ['a'], 1) ∧ (s ()).exceeded = false ∧
        (s ()).mark.map (fun mark => mark.judge (some (generationToken ['a'] 2))) =
          some (.ok .missed) :=
    exists_run_of_any _ rfl
  exact ⟨s, hu, hb, hr, by simp [replacedInBetween], hju⟩

end GenerationMarks

end ThreeTears
