import ThreeTears.Lib.StepSystem
import Mathlib.Data.List.Dedup

/-!
# Write marks

A commit leaves marks in a queue, one row per table it wrote. Whoever advances the table's write
generation afterwards deletes the marks that the advance covers: a writer those it read before, a
reconcile pass those of its page. `GenerationSource.advance` raises, or answers `None` when it
advanced nothing; a pass takes that for an advance, as does a writer whose table caches no absences.
-/

namespace ThreeTears

open Function

variable {T ι : Type*}

structure WriteMark (T : Type*) where
  id : Nat
  table : T
  deriving DecidableEq

/-- What `GenerationSource.advance` answers. -/
inductive AdvanceAnswer
  | token
  | nothing
  | raised (applied : Bool)
  deriving DecidableEq

def AdvanceAnswer.applies : AdvanceAnswer → Bool
  | .token => true
  | .nothing => false
  | .raised applied => applied

structure MarksConfig (T : Type*) where
  pageSize : Nat
  maxPages : Nat
  cachesAbsences : T → Bool

inductive WriterPc (T : Type*)
  | idle
  | reading (table : T)
  | advancing (table : T) (covered : List Nat)
  | clearing (covered : List Nat)

def WriterPc.covers : WriterPc T → Option (T × List Nat)
  | .advancing table covered => some (table, covered)
  | _ => none

/-- Where a reconcile pass stands, with the pages left to it and the tables that failed. -/
inductive PassPc (T : Type*)
  | idle
  | fetching (pages : Nat) (failed : List T)
  | advancing (pages : Nat) (failed : List T) (page : List (WriteMark T)) (todo done : List T)

/-- The queue and how often each table's generation was advanced; for every mark that became
visible, that number when it did. -/
structure MarkQueue (T ι : Type*) where
  queue : List (WriteMark T)
  gens : T → Nat
  born : List (WriteMark T × Nat)
  writers : ι → WriterPc T
  passes : ι → PassPc T

inductive MarkAct (T ι : Type*)
  | commit (marks : List (WriteMark T))
  | writerBegin (i : ι) (table : T)
  | marksBeforeAdvance (i : ι) (answered : Bool)
  | writerAdvance (i : ι) (answer : AdvanceAnswer)
  | clearMarks (i : ι) (applied : Bool)
  | passBegin (i : ι)
  | fetchPage (i : ι) (page : List (WriteMark T))
  | passAdvance (i : ι) (answer : AdvanceAnswer)
  | deletePage (i : ι) (applied raised : Bool)
  | passRaise (i : ι)
  | advanceElsewhere (table : T)

def deleteMarks (queue : List (WriteMark T)) (ids : List Nat) : List (WriteMark T) :=
  queue.filter fun mark => mark.id ∉ ids

def bornAfter (gens : T → Nat) (marks : List (WriteMark T)) (born : List (WriteMark T × Nat)) :
    List (WriteMark T × Nat) :=
  marks.map (fun mark => (mark, gens mark.table)) ++ born

variable [DecidableEq T]

def advanced (gens : T → Nat) (table : T) (answer : AdvanceAnswer) : T → Nat :=
  if answer.applies then update gens table (gens table + 1) else gens

def WriterPc.answered (cfg : MarksConfig T) (table : T) (covered : List Nat) :
    AdvanceAnswer → WriterPc T
  | .token => .clearing covered
  | .nothing => if cfg.cachesAbsences table then .idle else .clearing covered
  | .raised _ => .idle

/-- What a pass does with the answer to its advance of `table`. -/
def PassPc.answered (pages : Nat) (failed : List T) (page : List (WriteMark T)) (table : T)
    (todo done : List T) : AdvanceAnswer → PassPc T
  | .raised _ => .advancing pages (table :: failed) page todo done
  | _ => .advancing pages failed page todo (table :: done)

def doneIds (page : List (WriteMark T)) (done : List T) : List Nat :=
  (page.filter fun mark => mark.table ∈ done).map WriteMark.id

def MarkQueue.readable (s : MarkQueue T ι) (failed : List T) : List (WriteMark T) :=
  s.queue.filter fun mark => mark.table ∉ failed

namespace MarkQueue

variable [DecidableEq ι] (cfg : MarksConfig T)

def step (s : MarkQueue T ι) : MarkAct T ι → Option (MarkQueue T ι)
  | .commit marks =>
    if (marks.map WriteMark.id).Nodup ∧
        ∀ mark ∈ marks, mark.id ∉ s.born.map fun entry => entry.1.id then
      some { s with
        queue := s.queue ++ marks
        born := bornAfter s.gens marks s.born }
    else none
  | .writerBegin i table =>
    match s.writers i with
    | .idle => some { s with writers := update s.writers i (.reading table) }
    | _ => none
  | .marksBeforeAdvance i answered =>
    match s.writers i with
    | .reading table =>
      let covered := if answered then
          (s.queue.filter fun mark => mark.table = table).map WriteMark.id
        else []
      some { s with writers := update s.writers i (.advancing table covered) }
    | _ => none
  | .writerAdvance i answer =>
    match s.writers i with
    | .advancing table covered =>
      some { s with
        gens := advanced s.gens table answer
        writers := update s.writers i (.answered cfg table covered answer) }
    | _ => none
  | .clearMarks i applied =>
    match s.writers i with
    | .clearing covered =>
      some { s with
        queue := if applied then deleteMarks s.queue covered else s.queue
        writers := update s.writers i .idle }
    | _ => none
  | .passBegin i =>
    match s.passes i with
    | .idle => some { s with passes := update s.passes i (.fetching cfg.maxPages []) }
    | _ => none
  | .fetchPage i page =>
    match s.passes i with
    | .fetching (pages + 1) failed =>
      -- as many of the marks there are as fit the page, in no particular order
      if (∀ mark ∈ page, mark ∈ s.readable failed) ∧ page.Nodup ∧
          page.length = min cfg.pageSize (s.readable failed).length then
        some { s with
          passes := update s.passes i
            (.advancing pages failed page (page.map WriteMark.table).dedup []) }
      else none
    | _ => none
  | .passAdvance i answer =>
    match s.passes i with
    | .advancing pages failed page (table :: todo) done =>
      some { s with
        gens := advanced s.gens table answer
        passes := update s.passes i (.answered pages failed page table todo done answer) }
    | _ => none
  | .deletePage i applied raised =>
    match s.passes i with
    | .advancing pages failed page [] done =>
      if applied = true ∨ raised = true then
        some { s with
          queue := if applied then deleteMarks s.queue (doneIds page done) else s.queue
          passes := update s.passes i
            (if raised = true ∨ page.length < cfg.pageSize ∨ pages = 0 then .idle
              else .fetching pages failed) }
      else none
    | _ => none
  | .passRaise i => some { s with passes := update s.passes i .idle }
  | .advanceElsewhere table => some { s with gens := advanced s.gens table .token }

def system : StepSystem (MarkQueue T ι) (MarkAct T ι) := ⟨step cfg⟩

def start (gens : T → Nat) : MarkQueue T ι where
  queue := []
  gens := gens
  born := []
  writers _ := .idle
  passes _ := .idle

/-- No pass is answered that nothing was advanced, and no writer that read marks, unless its table
caches absences. -/
def Announces (s : MarkQueue T ι) : MarkAct T ι → Prop
  | .writerAdvance i .nothing => ∀ read ∈ (s.writers i).covers,
      cfg.cachesAbsences read.1 = true ∨ read.2 = []
  | .passAdvance _ answer => answer ≠ .nothing
  | _ => True

instance (s : MarkQueue T ι) (a) : Decidable (s.Announces cfg a) := by
  unfold Announces
  split <;> infer_instance

end MarkQueue

/-! ### What holds of the marks -/

lemma le_advanced (gens : T → Nat) (tab : T) (ans : AdvanceAnswer) (t : T) :
    gens t ≤ advanced gens tab ans t := by
  unfold advanced
  split_ifs
  · obtain rfl | ht := eq_or_ne t tab
    · simp
    · simp [ht]
  · exact Nat.le_refl _

lemma lt_advanced (gens : T → Nat) (table : T) : gens table < advanced gens table .token table := by
  simp [advanced, AdvanceAnswer.applies]

end ThreeTears
