import ThreeTears.Collections.CopyTable
import ThreeTears.Collections.EpochSnapshots

/-!
# Copies of several tables

`BufferedCopies` copies several L3 tables into a new L1, which becomes its live one when the
writers' record, read before the first table and after the last, is the same. All of it is read a
page at a time, between the steps of any number of writers and builds.
-/

namespace ThreeTears

variable {K T R V δ ι ρ : Type*}

/-- The epochs table's version row and the rows a page of it keeps, the tables that are copied, and
how they are read. -/
structure CopiesSetup (K T R V δ : Type*) where
  whole : K
  epochsPage : Nat
  epochsPage_pos : 0 < epochsPage
  tables : List T
  reader : CopyReader R V δ

/-- A set of copies: the L1, each table's proof, and the record it was taken at. -/
structure CopyGeneration (K T R V δ : Type*) [LinearOrder R] where
  backend : T → KeyedTable R V
  proofs : List (T × KeyFingerprint δ)
  stamp : EpochSnapshot K

/-- Where a replica's build stands. A build has the replica's build lock from its first step on. -/
inductive BuildPc (K T R V δ : Type*) [LinearOrder R]
  | idle
  | looking (read : SettledRead K)
  | settling (read : SettledRead K)
  | copying (g : CopyGeneration K T R V δ) (rest : List T) (pos : CopyPos R V δ)
  | checking (g : CopyGeneration K T R V δ) (read : SettledRead K)

/-- The writers' database, and each replica's build and live set. -/
structure CopiesRun (K T R V δ ι ρ : Type*) [LinearOrder K] [LinearOrder R] where
  db : EpochDb K (T → KeyedTable R V) ι
  builds : ρ → BuildPc K T R V δ
  current : ρ → Option (CopyGeneration K T R V δ)

inductive CopiesAct (K T R V ι ρ : Type*) [LinearOrder R]
  | db (a : EpochAct K (T → KeyedTable R V) ι)
  | build (r : ρ)
  | buildIfBehind (r : ρ)
  | settled (r : ρ) (gone : Bool)
  | copy (r : ρ)
  | fail (r : ρ)

variable [LinearOrder K] [LinearOrder R] [DecidableEq T]

def CopyGeneration.begun (stamp : EpochSnapshot K) : CopyGeneration K T R V δ where
  backend _ := .empty
  proofs := []
  stamp := stamp

def CopyGeneration.put (g : CopyGeneration K T R V δ) (t : T) (held : KeyedTable R V)
    (proof : KeyFingerprint δ) : CopyGeneration K T R V δ where
  backend := Function.update g.backend t held
  proofs := g.proofs ++ [(t, proof)]
  stamp := g.stamp

def BuildPc.copies (g : CopyGeneration K T R V δ) : List T → BuildPc K T R V δ
  | [] => .checking g .start
  | t :: rest => .copying g (t :: rest) .counting

namespace CopiesRun

variable [DecidableEq δ] [DecidableEq ι] [DecidableEq ρ] (c : CopiesSetup K T R V δ)

def setBuild (s : CopiesRun K T R V δ ι ρ) (r : ρ) (pc : BuildPc K T R V δ) :
    CopiesRun K T R V δ ι ρ := { s with builds := Function.update s.builds r pc }

def swap (s : CopiesRun K T R V δ ι ρ) (r : ρ) (g : CopyGeneration K T R V δ) :
    CopiesRun K T R V δ ι ρ :=
  { s.setBuild r .idle with current := Function.update s.current r (some g) }

def readSettled (s : CopiesRun K T R V δ ι ρ) (gone : Bool) (read : SettledRead K) :
    SettledStep K := read.next c.whole c.epochsPage s.db.table gone

def step (s : CopiesRun K T R V δ ι ρ) : CopiesAct K T R V ι ρ → Option (CopiesRun K T R V δ ι ρ)
  | .db a => (s.db.step c.whole a).map fun db => { s with db := db }
  | .build r =>
    match s.builds r with
    | .idle => some (s.setBuild r (.settling .start))
    | _ => none
  | .buildIfBehind r =>
    match s.builds r with
    | .idle => some (s.setBuild r (.looking .start))
    | _ => none
  | .settled r gone =>
    match s.builds r with
    | .looking read =>
      match s.readSettled c gone read with
      | .reading read => some (s.setBuild r (.looking read))
      | .settled stamp =>
        if ∃ g ∈ s.current r, g.stamp = stamp then some (s.setBuild r .idle)
        else some (s.setBuild r (.settling .start))
      | .unsettled _ =>
        if (s.current r).isSome then some (s.setBuild r .idle)
        else some (s.setBuild r (.settling .start))
    | .settling read =>
      match s.readSettled c gone read with
      | .reading read => some (s.setBuild r (.settling read))
      | .settled stamp => some (s.setBuild r (.copies (.begun stamp) c.tables))
      | .unsettled _ => some (s.setBuild r .idle)
    | .checking g read =>
      match s.readSettled c gone read with
      | .reading read => some (s.setBuild r (.checking g read))
      | .settled stamp => if stamp = g.stamp then some (s.swap r g) else some (s.setBuild r .idle)
      | .unsettled _ => some (s.setBuild r .idle)
    | _ => none
  | .copy r =>
    match s.builds r with
    | .copying g (t :: rest) pos =>
      match c.reader.next (s.db.data t) pos with
      | .reading pos => some (s.setBuild r (.copying g (t :: rest) pos))
      | .ended (some held) (.ok proof) => some (s.setBuild r (.copies (g.put t held proof) rest))
      | .ended _ _ => some (s.setBuild r .idle)
    | _ => none
  | .fail r =>
    match s.builds r with
    | .idle => none
    | _ => some (s.setBuild r .idle)

def system : StepSystem (CopiesRun K T R V δ ι ρ) (CopiesAct K T R V ι ρ) := ⟨step c⟩

def start (data : T → KeyedTable R V) : CopiesRun K T R V δ ι ρ where
  db := .start data
  builds _ := .idle
  current _ := none

/-- Writers touch what they change in the transaction that changes it. -/
def Fenced (s : CopiesRun K T R V δ ι ρ) : CopiesAct K T R V ι ρ → Prop
  | .db a => s.db.Fenced a
  | _ => True

instance (s : CopiesRun K T R V δ ι ρ) (a) : Decidable (s.Fenced a) := by
  unfold Fenced
  split <;> infer_instance

inductive Moves (s : CopiesRun K T R V δ ι ρ) :
    CopiesAct K T R V ι ρ → CopiesRun K T R V δ ι ρ → Prop
  | db (a : EpochAct K (T → KeyedTable R V) ι) (db : EpochDb K (T → KeyedTable R V) ι)
      (hdb : s.db.Moves c.whole a db) : Moves s (.db a) { s with db := db }
  | rests (a : CopiesAct K T R V ι ρ) (r : ρ) (pc : BuildPc K T R V δ)
      (hpc : pc = .idle ∨ pc = .settling .start ∨ ∃ read, pc = .looking read) :
    Moves s a (s.setBuild r pc)
  | settles (r : ρ) (gone : Bool) (read read' : SettledRead K)
      (hpc : s.builds r = .settling read) (hread : s.readSettled c gone read = .reading read') :
    Moves s (.settled r gone) (s.setBuild r (.settling read'))
  | stamps (r : ρ) (gone : Bool) (read : SettledRead K) (stamp : EpochSnapshot K)
      (hpc : s.builds r = .settling read) (hread : s.readSettled c gone read = .settled stamp) :
    Moves s (.settled r gone) (s.setBuild r (.copies (.begun stamp) c.tables))
  | reads (r : ρ) (g : CopyGeneration K T R V δ) (t : T) (rest : List T) (pos pos' : CopyPos R V δ)
      (hpc : s.builds r = .copying g (t :: rest) pos)
      (hread : c.reader.next (s.db.data t) pos = .reading pos') :
    Moves s (.copy r) (s.setBuild r (.copying g (t :: rest) pos'))
  | copied (r : ρ) (g : CopyGeneration K T R V δ) (t : T) (rest : List T) (pos : CopyPos R V δ)
      (held : KeyedTable R V) (proof : KeyFingerprint δ)
      (hpc : s.builds r = .copying g (t :: rest) pos)
      (hread : c.reader.next (s.db.data t) pos = .ended (some held) (.ok proof)) :
    Moves s (.copy r) (s.setBuild r (.copies (g.put t held proof) rest))
  | checks (r : ρ) (gone : Bool) (g : CopyGeneration K T R V δ) (read read' : SettledRead K)
      (hpc : s.builds r = .checking g read)
      (hread : s.readSettled c gone read = .reading read') :
    Moves s (.settled r gone) (s.setBuild r (.checking g read'))
  | keeps (r : ρ) (gone : Bool) (g : CopyGeneration K T R V δ) (read : SettledRead K)
      (hpc : s.builds r = .checking g read)
      (hread : s.readSettled c gone read = .settled g.stamp) :
    Moves s (.settled r gone) (s.swap r g)

variable {c} {s s' : CopiesRun K T R V δ ι ρ} {a : CopiesAct K T R V ι ρ}

theorem moves_of_step (ht : s.step c a = some s') : s.Moves c a s' := by
  cases a with (simp only [step] at ht; try split at ht <;> cases ht)
  | db a =>
    obtain ⟨db, hdb, rfl⟩ := Option.map_eq_some_iff.1 ht
    exact .db a db (EpochDb.moves_of_step hdb)
  | build r => exact .rests _ r _ (.inr (.inl rfl))
  | buildIfBehind r => exact .rests _ r _ (.inr (.inr ⟨_, rfl⟩))
  | settled r gone =>
    split at ht
    next read hpc =>
      split at ht
      · cases ht
        exact .rests _ r _ (.inr (.inr ⟨_, rfl⟩))
      all_goals
        split_ifs at ht <;> cases ht
        · exact .rests _ r _ (.inl rfl)
        · exact .rests _ r _ (.inr (.inl rfl))
    next read hpc =>
      split at ht <;> cases ht
      next read' hread => exact .settles r gone read read' hpc hread
      next stamp hread => exact .stamps r gone read stamp hpc hread
      next => exact .rests _ r _ (.inl rfl)
    next g read hpc =>
      split at ht <;> (try split_ifs at ht with hsa) <;> cases ht
      next read' hread => exact .checks r gone g read read' hpc hread
      next stamp hread => exact .keeps r gone g read hpc (hsa ▸ hread)
      all_goals exact .rests _ r _ (.inl rfl)
    next => cases ht
  | copy r =>
    split at ht
    next g t rest pos hpc =>
      split at ht <;> cases ht
      next pos' hread => exact .reads r g t rest pos pos' hpc hread
      next held proof hread => exact .copied r g t rest pos held proof hpc hread
      next => exact .rests _ r _ (.inl rfl)
    next => cases ht
  | fail r => exact .rests _ r _ (.inl rfl)

end CopiesRun

end ThreeTears
