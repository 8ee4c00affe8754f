import ThreeTears.Lib.Families
import ThreeTears.Collections.WriteMarks

/-!
# Marks over whole runs

What a writer or a pass read is of marks that became visible before, so what an advance covered
stays covered. While no answer `None` is taken for an advance, every mark that is not in the queue
any more has been passed by its table's generation.
-/

namespace ThreeTears

open List Option

variable {T ι : Type*} {queue : List (WriteMark T)} {gens gens' : T → Nat}
  {born : List (WriteMark T × Nat)} {ids : List Nat} {marks : List (WriteMark T)}
  {mark : WriteMark T} {g : Nat}

def Known (born : List (WriteMark T × Nat)) (ids : List Nat) : Prop :=
  ∀ id ∈ ids, id ∈ born.map fun entry => entry.1.id

/-- The table of every mark with one of the ids was advanced after the mark became visible. -/
def Passed (gens : T → Nat) (born : List (WriteMark T × Nat)) (ids : List Nat) : Prop :=
  ∀ mark g, (mark, g) ∈ born → mark.id ∈ ids → g < gens mark.table

lemma mem_bornAfter (hmem : (mark, g) ∈ bornAfter gens marks born) :
    mark ∈ marks ∧ g = gens mark.table ∨ (mark, g) ∈ born := by
  rcases mem_append.1 hmem with hmem | hmem
  · obtain ⟨mark', hm', he⟩ := List.mem_map.1 hmem
    cases he
    exact .inl ⟨hm', rfl⟩
  · exact .inr hmem

lemma mem_born_of_known (hk : Known born ids)
    (hr : ∀ mark ∈ marks, mark.id ∉ born.map fun entry => entry.1.id)
    (hmem : (mark, g) ∈ bornAfter gens marks born) (hi : mark.id ∈ ids) : (mark, g) ∈ born := by
  rcases mem_bornAfter hmem with ⟨hm, -⟩ | hold
  · exact absurd (hk mark.id hi) (hr mark hm)
  · exact hold

lemma Known.commit (hk : Known born ids) : Known (bornAfter gens marks born) ids := by
  intro id hi
  simp only [bornAfter, map_append]
  exact mem_append_right _ (hk id hi)

lemma Passed.mono (h : Passed gens born ids) (hle : ∀ t, gens t ≤ gens' t) :
    Passed gens' born ids :=
  fun mark g hmem hi => lt_of_lt_of_le (h mark g hmem hi) (hle mark.table)

lemma Passed.commit (h : Passed gens born ids) (hk : Known born ids)
    (hr : ∀ mark ∈ marks, mark.id ∉ born.map fun entry => entry.1.id) :
    Passed gens (bornAfter gens marks born) ids :=
  fun mark g hmem hi => h mark g (mem_born_of_known hk hr hmem hi) hi

/-! ### The queue -/

/-- A mark is in the queue until its table's generation has passed it. -/
structure QueueOk (queue : List (WriteMark T)) (gens : T → Nat)
    (born : List (WriteMark T × Nat)) : Prop where
  kept : ∀ mark g, (mark, g) ∈ born → mark ∈ queue ∨ g < gens mark.table
  le : ∀ mark g, (mark, g) ∈ born → g ≤ gens mark.table
  visible : ∀ mark ∈ queue, ∃ g, (mark, g) ∈ born
  ids : (born.map fun entry => entry.1.id).Nodup

namespace QueueOk

section

variable (h : QueueOk queue gens born)
include h

lemma eq_of_id_eq {mark' : WriteMark T} {g' : Nat}
    (hmem : (mark, g) ∈ born) (hm' : (mark', g') ∈ born) (hi : mark.id = mark'.id) :
    mark = mark' ∧ g = g' :=
  Prod.mk.inj (inj_on_of_nodup_map h.ids hmem hm' hi)

lemma mem_ids (hmem : mark ∈ queue) : mark.id ∈ born.map fun entry => entry.1.id := by
  obtain ⟨g, hg⟩ := h.visible mark hmem
  exact List.mem_map.2 ⟨(mark, g), hg, rfl⟩

lemma mono (hle : ∀ t, gens t ≤ gens' t) : QueueOk queue gens' born where
  __ := h
  kept mark g hmem := (h.kept mark g hmem).imp_right fun hlt => lt_of_lt_of_le hlt (hle _)
  le mark g hmem := le_trans (h.le mark g hmem) (hle _)

lemma delete (hpa : Passed gens born ids) : QueueOk (deleteMarks queue ids) gens born := by
  refine ⟨fun mark g hmem => ?_, h.le, fun mark hmem => ?_, h.ids⟩
  · by_cases hi : mark.id ∈ ids
    · exact .inr (hpa mark g hmem hi)
    refine (h.kept mark g hmem).imp_left fun hq => ?_
    exact mem_filter.2 ⟨hq, by simpa using hi⟩
  · exact h.visible mark (mem_filter.1 hmem).1

lemma commit (ho : (marks.map WriteMark.id).Nodup)
    (hr : ∀ mark ∈ marks, mark.id ∉ born.map fun entry => entry.1.id) :
    QueueOk (queue ++ marks) gens (bornAfter gens marks born) := by
  constructor
  · intro mark g hmem
    rcases mem_bornAfter hmem with ⟨hm, -⟩ | hold
    · exact .inl (mem_append_right _ hm)
    · exact (h.kept mark g hold).imp_left (mem_append_left _)
  · intro mark g hmem
    rcases mem_bornAfter hmem with ⟨-, rfl⟩ | hold
    · exact le_rfl
    · exact h.le mark g hold
  · intro mark hmem
    rcases mem_append.1 hmem with hold | hnew
    · obtain ⟨g, hg⟩ := h.visible mark hold
      exact ⟨g, mem_append_right _ hg⟩
    · exact ⟨gens mark.table, mem_append_left _ (List.mem_map.2 ⟨mark, hnew, rfl⟩)⟩
  simp only [bornAfter, map_append, List.map_map]
  apply List.Nodup.append ho h.ids
  intro id hi hold
  obtain ⟨mark, hm, rfl⟩ := List.mem_map.1 hi
  exact hr mark hm hold

end

end QueueOk

/-! ### Writers and passes -/

def WriterOk (gens : T → Nat) (born : List (WriteMark T × Nat)) : WriterPc T → Prop
  | .advancing table covered => Known born covered ∧
      ∀ mark g, (mark, g) ∈ born → mark.id ∈ covered → mark.table = table
  | .clearing covered => Known born covered ∧ Passed gens born covered
  | _ => True

lemma WriterOk.mono {pc : WriterPc T} (h : WriterOk gens born pc) (hle : ∀ t, gens t ≤ gens' t) :
    WriterOk gens' born pc := by
  cases pc with
  | clearing => exact ⟨h.1, h.2.mono hle⟩
  | _ => exact h

lemma WriterOk.commit {pc : WriterPc T} (h : WriterOk gens born pc)
    (hr : ∀ mark ∈ marks, mark.id ∉ born.map fun entry => entry.1.id) :
    WriterOk gens (bornAfter gens marks born) pc := by
  cases pc with
  | advancing =>
    refine ⟨h.1.commit, fun mark g hmem hi => ?_⟩
    exact h.2 mark g (mem_born_of_known h.1 hr hmem hi) hi
  | clearing => exact ⟨h.1.commit, h.2.commit h.1 hr⟩
  | _ => trivial

variable [DecidableEq T]

def PassOk (gens : T → Nat) (born : List (WriteMark T × Nat)) : PassPc T → Prop
  | .advancing _ _ page _ done =>
    (∀ mark ∈ page, ∃ g, (mark, g) ∈ born) ∧ Passed gens born (doneIds page done)
  | _ => True

variable {page : List (WriteMark T)}

lemma mem_doneIds {done : List T} {id : Nat} :
    id ∈ doneIds page done ↔ ∃ mark ∈ page, mark.table ∈ done ∧ mark.id = id := by
  simp [doneIds, and_assoc]

lemma known_doneIds (h : ∀ mark ∈ page, ∃ g, (mark, g) ∈ born)
    (done : List T) : Known born (doneIds page done) := by
  intro id hi
  obtain ⟨mark, hm, -, rfl⟩ := mem_doneIds.1 hi
  obtain ⟨g, hg⟩ := h mark hm
  exact List.mem_map.2 ⟨(mark, g), hg, rfl⟩

lemma PassOk.mono {pc : PassPc T} (h : PassOk gens born pc) (hle : ∀ t, gens t ≤ gens' t) :
    PassOk gens' born pc := by
  cases pc with
  | advancing => exact ⟨h.1, h.2.mono hle⟩
  | _ => exact h

lemma PassOk.commit {pc : PassPc T} (h : PassOk gens born pc)
    (hr : ∀ mark ∈ marks, mark.id ∉ born.map fun entry => entry.1.id) :
    PassOk gens (bornAfter gens marks born) pc := by
  cases pc with
  | advancing _ _ _ _ done =>
    refine ⟨fun mark hm => ?_, h.2.commit (known_doneIds h.1 done) hr⟩
    obtain ⟨g, hg⟩ := h.1 mark hm
    exact ⟨g, mem_append_right _ hg⟩
  | _ => trivial

namespace MarkQueue

structure Ok (s : MarkQueue T ι) : Prop where
  queue : QueueOk s.queue s.gens s.born
  writers : ∀ i, WriterOk s.gens s.born (s.writers i)
  passes : ∀ i, PassOk s.gens s.born (s.passes i)

variable {cfg : MarksConfig T} {s s' : MarkQueue T ι} {a : MarkAct T ι}

lemma ok_start (gens : T → Nat) : (start gens : MarkQueue T ι).Ok := by
  constructor
  · constructor <;> simp [start]
  · exact fun i => trivial
  · exact fun i => trivial

namespace Ok

variable (h : s.Ok)
include h

lemma advance (table : T) (ans : AdvanceAnswer) :
    Ok { s with gens := advanced s.gens table ans } where
  queue := h.queue.mono (le_advanced s.gens table ans)
  writers i := (h.writers i).mono (le_advanced s.gens table ans)
  passes i := (h.passes i).mono (le_advanced s.gens table ans)

lemma delete {ids : List Nat} (hpa : Passed s.gens s.born ids) (applied : Bool) :
    Ok { s with queue := if applied then deleteMarks s.queue ids else s.queue } := by
  refine ⟨?_, h.writers, h.passes⟩
  cases applied with
  | true => exact h.queue.delete hpa
  | false => exact h.queue

lemma writerOk_read (table : T) (answered : Bool) : WriterOk s.gens s.born (.advancing table
      (if answered then (s.queue.filter fun mark => mark.table = table).map WriteMark.id
        else [])) := by
  cases answered with
  | false => exact ⟨by simp [Known], by simp⟩
  | true =>
    constructor
    · intro id hi
      obtain ⟨mark, hm, rfl⟩ := List.mem_map.1 hi
      exact h.queue.mem_ids (mem_filter.1 hm).1
    intro mark g hmem hi
    obtain ⟨mark', hm', he⟩ := List.mem_map.1 hi
    obtain ⟨hq, ht⟩ := mem_filter.1 hm'
    obtain ⟨g', hg'⟩ := h.queue.visible mark' hq
    obtain ⟨rfl, -⟩ := h.queue.eq_of_id_eq hmem hg' he.symm
    simpa using ht

lemma writerOk_answered {table : T} {cov : List Nat} {ans : AdvanceAnswer}
    (hpc : WriterOk s.gens s.born (.advancing table cov))
    (ho : ans = .nothing → cfg.cachesAbsences table = true ∨ cov = []) :
    WriterOk (advanced s.gens table ans) s.born (.answered cfg table cov ans) := by
  cases ans with
  | token =>
    refine ⟨hpc.1, fun mark g hmem hi => ?_⟩
    rw [hpc.2 mark g hmem hi]
    refine lt_of_le_of_lt ?_ (lt_advanced s.gens table)
    rw [← hpc.2 mark g hmem hi]
    exact h.queue.le mark g hmem
  | nothing =>
    rcases ho rfl with hc | rfl
    · simp [WriterPc.answered, hc, WriterOk]
    simp only [WriterPc.answered]
    split_ifs
    · trivial
    · exact ⟨hpc.1, by simp [Passed]⟩
  | raised => trivial

lemma passOk_answered {pag : Nat} {failed todo done : List T} {table : T} {ans : AdvanceAnswer}
    (hpc : PassOk s.gens s.born (.advancing pag failed page (table :: todo) done))
    (ho : ans ≠ .nothing) : PassOk (advanced s.gens table ans) s.born
      (.answered pag failed page table todo done ans) := by
  cases ans with
  | nothing => exact absurd rfl ho
  | raised => exact ⟨hpc.1, hpc.2.mono (le_advanced s.gens table _)⟩
  | token =>
    refine ⟨hpc.1, fun mark g hmem hi => ?_⟩
    obtain ⟨mark', hm', ht, he⟩ := mem_doneIds.1 hi
    obtain ⟨g', hg'⟩ := hpc.1 mark' hm'
    obtain ⟨rfl, -⟩ := h.queue.eq_of_id_eq hg' hmem he
    rcases mem_cons.1 ht with he | hd
    · rw [he]
      refine lt_of_le_of_lt ?_ (lt_advanced s.gens table)
      rw [← he]
      exact h.queue.le mark' g hmem
    refine lt_of_lt_of_le ?_ (le_advanced s.gens table .token mark'.table)
    exact hpc.2 mark' g hmem (mem_doneIds.2 ⟨mark', hm', hd, rfl⟩)

variable [DecidableEq ι]

lemma writer (i : ι) {pc : WriterPc T} (hpc : WriterOk s.gens s.born pc) :
    Ok { s with writers := Function.update s.writers i pc } :=
  ⟨h.queue, forall_update (I := fun _ pc => WriterOk s.gens s.born pc) h.writers hpc, h.passes⟩

lemma pass (i : ι) {pc : PassPc T} (hpc : PassOk s.gens s.born pc) :
    Ok { s with passes := Function.update s.passes i pc } :=
  ⟨h.queue, h.writers, forall_update (I := fun _ pc => PassOk s.gens s.born pc) h.passes hpc⟩

/-- Every step keeps the queue, the writers and the passes in order. -/
theorem step (ho : s.Announces cfg a) (ht : MarkQueue.step cfg s a = some s') : s'.Ok := by
  cases a with (simp only [MarkQueue.step] at ht; try cases ht)
  | commit =>
    split_ifs at ht with h
    cases ht
    obtain ⟨hno, hr⟩ := h
    exact ⟨h.queue.commit hno hr, fun i => (h.writers i).commit hr, fun i => (h.passes i).commit hr⟩
  | writerBegin i =>
    split at ht <;> cases ht
    exact h.writer i trivial
  | marksBeforeAdvance i answered =>
    split at ht <;> cases ht
    exact h.writer i (h.writerOk_read _ answered)
  | writerAdvance i ans =>
    split at ht <;> cases ht
    next table _ hpc =>
      have hread := h.writers i
      rw [hpc] at hread
      refine (h.advance table ans).writer i (h.writerOk_answered hread ?_)
      rintro rfl
      simpa [Announces, hpc, WriterPc.covers] using ho
  | clearMarks i applied =>
    split at ht <;> cases ht
    next hpc =>
      have hread := h.writers i
      rw [hpc] at hread
      exact (h.delete hread.2 applied).writer i trivial
  | passBegin i =>
    split at ht <;> cases ht
    exact h.pass i trivial
  | fetchPage i =>
    split at ht
    · split_ifs at ht with h
      cases ht
      obtain ⟨hpa, -⟩ := h
      refine h.pass i ⟨fun mark hm => ?_, by simp [Passed, doneIds]⟩
      exact h.queue.visible mark (mem_filter.1 (hpa mark hm)).1
    · cases ht
  | passAdvance i ans =>
    split at ht <;> cases ht
    next table _ _ hpc =>
      have hread := h.passes i
      rw [hpc] at hread
      exact (h.advance table ans).pass i (h.passOk_answered hread ho)
  | deletePage i applied =>
    split at ht
    next hpc =>
      simp only [ite_none_right_eq_some, Option.some.injEq] at ht
      obtain ⟨-, rfl⟩ := ht
      have hread := h.passes i
      rw [hpc] at hread
      apply (h.delete hread.2 applied).pass i
      split_ifs <;> trivial
    · cases ht
  | passRaise i => exact h.pass i trivial
  | advanceElsewhere table => exact h.advance table .token

lemma passed_of_deleted (ht : MarkQueue.step cfg s a = some s')
    (hmem : mark ∈ s.queue) (ho : mark ∉ s'.queue) :
    ∃ g, (mark, g) ∈ s.born ∧ g < s.gens mark.table := by
  obtain ⟨g, hg⟩ := h.queue.visible mark hmem
  refine ⟨g, hg, ?_⟩
  have hd : ∀ (applied : Bool) (ids : List Nat), Passed s.gens s.born ids →
      mark ∉ (if applied then deleteMarks s.queue ids else s.queue) → g < s.gens mark.table := by
    intro applied ids hpa hno
    cases applied with
    | false => exact absurd hmem hno
    | true =>
      apply hpa mark g hg
      by_contra hi
      exact hno (mem_filter.2 ⟨hmem, by simpa using hi⟩)
  cases a with simp only [MarkQueue.step] at ht
  | clearMarks i applied =>
    split at ht <;> cases ht
    next covered hpc =>
      have hread := h.writers i
      rw [hpc] at hread
      exact hd applied covered hread.2 ho
  | deletePage i applied =>
    split at ht
    next hpc =>
      simp only [ite_none_right_eq_some, Option.some.injEq] at ht
      obtain ⟨-, rfl⟩ := ht
      have hread := h.passes i
      rw [hpc] at hread
      exact hd applied _ hread.2 ho
    · cases ht
  | commit =>
    split_ifs at ht
    cases ht
    exact absurd (mem_append_left _ hmem) ho
  | fetchPage =>
    split at ht
    · split_ifs at ht
      cases ht
      exact absurd hmem ho
    · cases ht
  | passRaise i | advanceElsewhere table =>
    cases ht
    exact absurd hmem ho
  | _ =>
    split at ht <;> cases ht
    exact absurd hmem ho

end Ok

variable [DecidableEq ι]

/-- Over runs in which no answer `None` is taken for an advance: every mark that became visible is
in the queue or was passed by its table's generation, and no step takes out a mark that was not. -/
theorem marks_kept {acts : List (MarkAct T ι)}
    (hrun : ((system cfg).guard (Announces cfg)).run (start gens) acts = some s) :
    (∀ mark g, (mark, g) ∈ s.born → mark ∈ s.queue ∨ g < s.gens mark.table) ∧
      ∀ a s', step cfg s a = some s' → ∀ mark ∈ s.queue, mark ∉ s'.queue →
        ∃ g, (mark, g) ∈ s.born ∧ g < s.gens mark.table := by
  have h : s.Ok := by
    refine StepSystem.run_guard_invariant _ (fun s a s' h ho ht => ?_) (ok_start gens) hrun
    exact h.step ho ht
  refine ⟨h.queue.kept, ?_⟩
  intro a s' ht mark hmem hg
  exact h.passed_of_deleted ht hmem hg

def twoMarks : MarksConfig Unit := ⟨2, 1, fun _ => false⟩

/-- A writer clears its mark while a pass that read it too fails to advance; the mark committed in
between stays. -/
def writerAndPass : List (MarkAct Unit Unit) :=
  [.commit [⟨1, ()⟩], .passBegin (), .fetchPage () [⟨1, ()⟩], .writerBegin () (),
    .marksBeforeAdvance () true, .commit [⟨2, ()⟩], .passAdvance () (.raised false),
    .writerAdvance () .token, .clearMarks () true, .deletePage () true false]

theorem marks_kept_writerAndPass : ∃ s : MarkQueue Unit Unit,
      ((system twoMarks).guard (Announces twoMarks)).run (start fun _ => 0) writerAndPass = some s ∧
        s.queue = [⟨2, ()⟩] ∧
        ∀ mark g, (mark, g) ∈ s.born → mark ∈ s.queue ∨ g < s.gens mark.table := by
  exact StepSystem.exists_run_and _ rfl fun s hr _ => (marks_kept hr).1

def passNothing : List (MarkAct Unit Unit) :=
  [.commit [⟨1, ()⟩], .passBegin (), .fetchPage () [⟨1, ()⟩], .passAdvance () .nothing,
    .deletePage () true false]

/-- The pass deletes the mark, and no generation was ever advanced. -/
theorem mark_lost_passNothing : ∃ s : MarkQueue Unit Unit,
      (system twoMarks).run (start fun _ => 0) passNothing = some s ∧
        s.born = [(⟨1, ()⟩, 0)] ∧ s.queue = [] ∧ s.gens () = 0 :=
  StepSystem.exists_run_of_any _ rfl

end MarkQueue

end ThreeTears
