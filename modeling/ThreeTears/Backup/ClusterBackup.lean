import ThreeTears.Lib.StepSystem
import Mathlib.Data.Finset.Insert
import Mathlib.Data.Finset.Erase

/-!
# Backup sets and their manifests

A set is its dumps, its globals and a manifest that names them. `create_backup` writes the manifest
last, and `delete_set` deletes it last: from the first delete on it names an object that is gone.
-/

namespace ThreeTears

/-- Where `ClusterBackup` stands between two store operations. Sets are named by their ids. -/
inductive BackupTask (ι δ : Type*)
  | idle
  /-- the globals are put next -/
  | globals (id : ι) (databases : List δ)
  /-- the dumps made so far and the databases still to dump; with none left, the manifest -/
  | dumping (id : ι) (dumps databases : List δ)
  /-- the objects of the set still to delete, and the sets to delete after it; with no object left,
  the manifest -/
  | deleting (id : ι) (keys : List (Option δ)) (rest : List ι)
  deriving DecidableEq

/-- How a store operation ends: the last two raise, and `lost` has been applied all the same. -/
inductive StoreOutcome
  | done
  | lost
  | failed
  deriving DecidableEq

/-- The store and the one process that works on it. The key of a set's object is the set's id with
the database, `none` for the globals. -/
structure BackupRun (ι δ : Type*) where
  objects : Finset (ι × Option δ)
  /-- the databases that a stored manifest names -/
  manifests : ι → Option (List δ)
  task : BackupTask ι δ
  used : Finset ι
  /-- the sets that a `delete_set` has begun on -/
  begun : Finset ι

inductive BackupAct (ι δ : Type*)
  | createBackup (id : ι) (databases : List δ)
  | deleteSet (id : ι)
  /-- `ids` are the sets that the policy prunes -/
  | applyRetention (ids : List ι)
  | call (outcome : StoreOutcome)
  /-- a dump that lost a race with concurrent DDL and is taken again -/
  | retry (outcome : StoreOutcome)
  | die

namespace BackupRun

variable {ι δ : Type*} [DecidableEq ι] [DecidableEq δ] {s s' : BackupRun ι δ} {a : BackupAct ι δ}
  {allowDelete : Bool} {outcome : StoreOutcome}

def named (dumps : List δ) : List (Option δ) := dumps.map some ++ [none]

def put (s : BackupRun ι δ) (key : ι × Option δ) (outcome : StoreOutcome) : BackupRun ι δ :=
  { s with objects := if outcome = .failed then s.objects else insert key s.objects }

def delete (s : BackupRun ι δ) (key : ι × Option δ) (outcome : StoreOutcome) : BackupRun ι δ :=
  { s with objects := if outcome = .failed then s.objects else s.objects.erase key }

/-- The manifest's object: `none` deletes it. -/
def putManifest (s : BackupRun ι δ) (id : ι) (manifest : Option (List δ)) (outcome : StoreOutcome) :
    BackupRun ι δ :=
  { s with
    manifests :=
      if outcome = .failed then s.manifests else Function.update s.manifests id manifest }

/-- `delete_set` of one set after the other, up to the first operation of the first. -/
def deleteSets (s : BackupRun ι δ) : List ι → BackupRun ι δ
  | [] => { s with task := .idle }
  | id :: rest =>
    match s.manifests id with
    | none => { s with task := .idle }
    | some dumps => { s with task := .deleting id (named dumps) rest, begun := insert id s.begun }

/-- What an operation that raises leaves behind is `raised`. -/
def andThen (s : BackupRun ι δ) (outcome : StoreOutcome) (task raised : BackupTask ι δ) :
    BackupRun ι δ :=
  { s with task := if outcome = .done then task else raised }

def call (s : BackupRun ι δ) (outcome : StoreOutcome) : BackupRun ι δ :=
  match s.task with
  | .idle => s
  | .globals id databases =>
    (s.put (id, none) outcome).andThen outcome (.dumping id [] databases) .idle
  | .dumping id dumps (database :: databases) =>
    (s.put (id, some database) outcome).andThen outcome
      (.dumping id (dumps ++ [database]) databases) (.dumping id dumps databases)
  | .dumping id dumps [] =>
    if dumps = [] then { s with task := .idle }
    else (s.putManifest id (some dumps) outcome).andThen outcome .idle .idle
  | .deleting id (key :: keys) rest =>
    (s.delete (id, key) outcome).andThen outcome (.deleting id keys rest) .idle
  | .deleting id [] rest =>
    let s := s.putManifest id none outcome
    if outcome = .done then s.deleteSets rest else { s with task := .idle }

def step (allowDelete : Bool) (s : BackupRun ι δ) : BackupAct ι δ → Option (BackupRun ι δ)
  | .createBackup id databases =>
    if s.task = .idle ∧ id ∉ s.used then
      some { s with task := .globals id databases, used := insert id s.used }
    else none
  | .deleteSet id =>
    if s.task = .idle then some (if allowDelete then s.deleteSets [id] else s) else none
  | .applyRetention ids =>
    if s.task = .idle then some (if allowDelete then s.deleteSets ids else s) else none
  | .call outcome => some (s.call outcome)
  | .retry outcome =>
    match s.task with
    | .dumping id _ (database :: _) => some (s.put (id, some database) outcome)
    | _ => none
  | .die => some { s with task := .idle }

def system (allowDelete : Bool) : StepSystem (BackupRun ι δ) (BackupAct ι δ) := ⟨step allowDelete⟩

def start : BackupRun ι δ := ⟨∅, fun _ => none, .idle, ∅, ∅⟩

def Underway (s : BackupRun ι δ) : BackupTask ι δ → Prop
  | .idle | .globals _ _ => True
  | .dumping id dumps _ => ∀ key ∈ named dumps, (id, key) ∈ s.objects
  | .deleting id _ _ => id ∈ s.begun

structure Whole (allowDelete : Bool) (s : BackupRun ι δ) : Prop where
  stored : ∀ id dumps, s.manifests id = some dumps → id ∉ s.begun →
    ∀ key ∈ named dumps, (id, key) ∈ s.objects
  underway : s.Underway s.task
  allowed : allowDelete = false → s.begun = ∅

variable (h : s.Whole allowDelete)
include h

omit [DecidableEq ι] [DecidableEq δ] in
lemma Whole.andThen {task raised : BackupTask ι δ}
    (ht : outcome = .done → s.Underway task) (hr : s.Underway raised) :
    (s.andThen outcome task raised).Whole allowDelete := by
  have hu : s.Underway (if outcome = .done then task else raised) := by
    split_ifs with hd
    · exact ht hd
    · exact hr
  exact ⟨h.stored, hu, h.allowed⟩

omit h in
lemma mem_put {key k : ι × Option δ} (h : k ∈ s.objects) : k ∈ (s.put key outcome).objects := by
  simp only [put]
  split_ifs
  · exact h
  · exact Finset.mem_insert_of_mem h

lemma Whole.put (key : ι × Option δ) : (s.put key outcome).Whole allowDelete := by
  refine ⟨fun id dumps hm hi k hk => mem_put (h.stored id dumps hm hi k hk), ?_, h.allowed⟩
  have hu := h.underway
  change (s.put key outcome).Underway s.task
  cases ht : s.task with try rw [ht] at hu
  | idle | globals => trivial
  | dumping => exact fun k hk => mem_put (hu k hk)
  | deleting => exact hu

omit h in
lemma named_put {id : ι} {dumps : List δ} (h : ∀ k ∈ named dumps, (id, k) ∈ s.objects)
    (database : δ) (k : Option δ) (hk : k ∈ named (dumps ++ [database])) :
    (id, k) ∈ (s.put (id, some database) .done).objects := by
  have hsp : k ∈ named dumps ∨ k = some database := by
    simp only [named, List.map_append, List.mem_append, List.map_cons, List.map_nil,
      List.mem_singleton] at hk ⊢
    tauto
  rcases hsp with hold | rfl
  · exact mem_put (h k hold)
  · exact Finset.mem_insert_self _ _

lemma Whole.delete {id : ι} {keys : List (Option δ)} {rest : List ι}
    (ht : s.task = .deleting id keys rest) (key : Option δ) :
    (s.delete (id, key) outcome).Whole allowDelete := by
  have hi : id ∈ s.begun := by simpa [ht, Underway] using h.underway
  refine ⟨fun id' dumps hm hi' k hk => ?_, ?_, h.allowed⟩
  · have hold := h.stored id' dumps hm hi' k hk
    have he : (id', k) ≠ (id, key) := fun hq => hi' ((Prod.mk.inj hq).1 ▸ hi)
    simp only [BackupRun.delete]
    split_ifs
    · exact hold
    · exact Finset.mem_erase.2 ⟨he, hold⟩
  change Underway _ s.task
  rw [ht]
  exact hi

omit [DecidableEq δ] in
lemma Whole.putManifest {id : ι} {man : Option (List δ)}
    (hnew : ∀ dumps ∈ man, ∀ k ∈ named dumps, (id, k) ∈ s.objects) :
    (s.putManifest id man outcome).Whole allowDelete := by
  refine ⟨fun id' dumps hm hi' => ?_, h.underway, h.allowed⟩
  simp only [BackupRun.putManifest] at hm
  split_ifs at hm
  · exact h.stored id' dumps hm hi'
  rcases eq_or_ne id' id with rfl | he
  · exact hnew dumps (by simpa using hm)
  · exact h.stored id' dumps (by simpa [he] using hm) hi'

omit [DecidableEq δ] in
lemma Whole.deleteSets (hl : allowDelete = true) (ids : List ι) :
    (s.deleteSets ids).Whole allowDelete := by
  cases ids with
  | nil => exact ⟨h.stored, trivial, h.allowed⟩
  | cons id =>
    simp only [BackupRun.deleteSets]
    split
    · exact ⟨h.stored, trivial, h.allowed⟩
    refine ⟨fun id' dumps hm hi' => h.stored id' dumps hm fun hmem => ?_, ?_, ?_⟩
    · exact hi' (Finset.mem_insert_of_mem hmem)
    · exact Finset.mem_insert_self id _
    · simp [hl]

lemma Whole.call : (s.call outcome).Whole allowDelete := by
  have hu := h.underway
  unfold BackupRun.call
  split <;> rename_i he <;> rw [he] at hu
  · exact h
  · refine (h.put _).andThen (fun ho k hk => ?_) trivial
    cases ho
    simp_all [named, BackupRun.put]
  · refine (h.put _).andThen (fun ho => ?_) fun k hk => mem_put (hu k hk)
    cases ho
    exact named_put hu _
  · split_ifs
    · exact ⟨h.stored, trivial, h.allowed⟩
    refine Whole.andThen (h.putManifest fun dumps hd => ?_) (fun _ => trivial) trivial
    cases hd
    exact hu
  · exact (h.delete he _).andThen (fun _ => hu) trivial
  have hg (id : ι) : (s.putManifest id none outcome).Whole allowDelete :=
    h.putManifest fun dumps hd => by cases hd
  have hl : allowDelete = true := by
    cases hfa : allowDelete
    · simp [Underway, h.allowed hfa] at hu
    · rfl
  dsimp only
  split_ifs
  · exact (hg _).deleteSets hl _
  · exact ⟨(hg _).stored, trivial, h.allowed⟩

lemma Whole.step (ht : s.step allowDelete a = some s') : s'.Whole allowDelete := by
  cases a with (simp only [step] at ht; try cases ht)
  | createBackup =>
    split_ifs at ht
    cases ht
    exact ⟨h.stored, trivial, h.allowed⟩
  | deleteSet id | applyRetention ids =>
    split_ifs at ht with hidle hl <;> cases ht
    · exact h.deleteSets hl _
    · exact h
  | call => exact h.call
  | retry =>
    split at ht <;> cases ht
    · exact h.put _
  | die => exact ⟨h.stored, trivial, h.allowed⟩

omit h

/-- At every moment a stored manifest names only stored objects, unless a `delete_set` of its set
has begun; without `allow_delete` none has. -/
theorem manifest_names_stored {as : List (BackupAct ι δ)}
    (hrun : (system allowDelete).run start as = some s) :
    (∀ id dumps, s.manifests id = some dumps → id ∉ s.begun → ∀ key ∈ named dumps,
      (id, key) ∈ s.objects) ∧ (allowDelete = false → s.begun = ∅) := by
  have hsa : (start : BackupRun ι δ).Whole allowDelete :=
    ⟨by simp [start], trivial, fun _ => rfl⟩
  have h : s.Whole allowDelete :=
    StepSystem.run_invariant _ (fun _ _ _ h ht => Whole.step h ht) hsa hrun
  exact ⟨h.stored, h.allowed⟩

/-- Two sets, of which one lacks a database, and the other is deleted up to its first dump. -/
theorem manifest_names_stored_pruned :
    ∃ s : BackupRun ℕ ℕ, (system true).run start [.createBackup 1 [5], .call .done, .call .done,
      .call .done, .createBackup 2 [5, 6], .call .done, .retry .lost, .call .failed, .call .done,
      .call .done, .applyRetention [1], .call .done, .die] = some s ∧
      s.manifests 2 = some [6] ∧ ∀ key ∈ named [6], (2, key) ∈ s.objects := by
  refine (StepSystem.exists_run_of_any _ (p := fun s => s.manifests 2 = some [6] ∧ 2 ∉ s.begun)
    ?_).imp fun s h => ⟨h.1, h.2.1, (manifest_names_stored h.1).1 2 [6] h.2.1 h.2.2⟩
  decide +kernel

/-- The process dies after the first delete of a set, whose manifest stays. -/
theorem manifest_outlives_dump :
    ∃ s : BackupRun ℕ ℕ, (system true).run start [.createBackup 1 [5], .call .done, .call .done,
      .call .done, .deleteSet 1, .call .done, .die] = some s ∧
      s.manifests 1 = some [5] ∧ some 5 ∈ named [5] ∧ (1, some 5) ∉ s.objects := by
  apply StepSystem.exists_run_of_any _
  decide +kernel

end BackupRun

end ThreeTears
