import ThreeTears.Lib.Dict
import ThreeTears.Lib.Families
import ThreeTears.Lib.StepSystem

/-!
# The journal and the head rows of a workspace's files

A path's rows are listed newest first, and a content stands with the sha256 computed from it. A
workspace starts out empty; its template is the first batch. A bound directory is written back by
the operations that compare it with what they know of the workspace.
-/

namespace ThreeTears

open Function List StepSystem

inductive RowAction
  /-- `create`, `update` or `revert` -/
  | written
  | deleted
  | checkpoint (label : String)
  deriving DecidableEq

structure JournalRow (C : Type*) where
  version : Nat
  content : C
  action : RowAction

/-- What a rollback names: a version, or the word `head`, digits or a label. -/
inductive JournalRef
  | version (n : Nat)
  | text (t : String)

/-- What the watcher says of a path. -/
inductive WatchChange
  | added
  | modified
  | deleted
  deriving DecidableEq

structure FileJournal (P C : Type*) where
  versions : P → List (JournalRow C)
  heads : Dict P (Nat × C)
  currentVersion : Nat

/-- The operations by a workspace's owner. A directory stands with what it was read to contain and
the paths below what could not be read. -/
inductive JournalOp (P C : Type*)
  /-- `write_file_atomic`, or a template; a path without a content is deleted -/
  | batch (changes : List (P × Option C))
  | seed (l3Wins : Bool) (unreadable : P → Bool) (disk : Dict P C)
  | watchBatch (l3Wins : Bool) (justWrote : List (P × C)) (changes : Dict P WatchChange)
      (disk : Dict P C)
  | captureBack (snapshot : Dict P C) (unreadable : P → Bool) (disk : Dict P C)
  | recover (disk : Dict P C)
  | checkpoint (label : String)
  | rollback (ref : JournalRef) (path : Option P)
  | reset (template : Dict P C)

namespace FileJournal

variable {P C : Type*}
  -- what `int` makes of a text that `isdigit`, if it does not raise
  (digits : String → Option (Option Nat))
  {s s' t : FileJournal P C} {p : P} {row : JournalRow C} {rows : List (JournalRow C)}
  {head : Option (Nat × C)} {n m : Nat} {L : String} {op : JournalOp P C}

def nextJournalVersion (rows : List (JournalRow C)) : Nat :=
  (rows.map JournalRow.version).foldr max 0 + 1

def newest (rows : List (JournalRow C)) : Option (JournalRow C) := rows.argmax JournalRow.version

lemma lt_nextJournalVersion (h : row ∈ rows) : row.version < nextJournalVersion rows := by
  induction rows with
  | nil => cases h
  | cons r rows ih =>
    simp only [nextJournalVersion, map_cons, foldr_cons, mem_cons] at h ih ⊢
    obtain rfl | h := h
    · omega
    have := ih h
    omega

def labelled (label : String) (rows : List (JournalRow C)) : List (JournalRow C) :=
  rows.filter (·.action = .checkpoint label)

lemma newest_content {o : Option C} (h : rows.map JournalRow.content = o.toList) :
    (newest rows).map JournalRow.content = o := by
  cases o with
  | none => simp_all [newest]
  | some c =>
    obtain ⟨row, rfl⟩ := length_eq_one_iff.1 (by simpa using congrArg length h)
    simpa [newest] using h

/-- The newest row, the one of a version or the newest one of a label. -/
def resolveRef (rows : List (JournalRow C)) : JournalRef → Option (JournalRow C)
  | .version n => rows.find? (·.version = n)
  | .text t =>
    if t = "head" then newest rows
    else match digits t with
      | some n => n.bind fun n => rows.find? (·.version = n)
      | none => newest (labelled t rows)

/-- The reference is none that `resolve_ref` raises at: digits that `int` does not read, or a number
that is too great for the version column. -/
def Readable : JournalRef → Prop
  | .version n => n < 2147483648
  | .text t => t = "head" ∨ ∀ n ∈ digits t, ∃ version ∈ n, version < 2147483648

instance (ref : JournalRef) : Decidable (Readable digits ref) := by
  unfold Readable
  split <;> infer_instance

/-- What a row makes of the head row: a checkpoint leaves it. -/
def headAfter (row : JournalRow C) (head : Option (Nat × C)) : Option (Nat × C) :=
  match row.action with
  | .written => some (row.version, row.content)
  | .deleted => none
  | .checkpoint _ => head

structure Fits (rows : List (JournalRow C)) (head : Option (Nat × C)) (n : Nat) : Prop where
  sorted : rows.Pairwise (·.version > ·.version)
  head_eq : head = rows.foldr headAfter none
  le : ∀ x, head = some x → x.1 ≤ n

lemma Fits.mono (h : Fits rows head n) (hm : n ≤ m) : Fits rows head m :=
  { h with le := fun x hx => (h.le x hx).trans hm }

lemma Fits.cons (h : Fits rows head n) (hrow : ∀ r ∈ rows, r.version < row.version)
    (hle : ∀ x, headAfter row head = some x → x.1 ≤ m) :
    Fits (row :: rows) (headAfter row head) m :=
  ⟨pairwise_cons.2 ⟨hrow, h.sorted⟩, by rw [h.head_eq, foldr_cons], hle⟩

variable [DecidableEq P]

/-- The paths a rollback writes: those with a head row, or the one that was named. -/
def rollbackSet (s : FileJournal P C) (path : Option P) : List P :=
  s.heads.keys.filter fun p => path.all (· = p)

section Disk

variable [DecidableEq C] (s : FileJournal P C)

/-- What a directory has of new paths, what it has with another content, and the known paths it has
not, but for those it was not read for. -/
def diskChanges (known : Dict P C) (unreadable : P → Bool) (disk : Dict P C) :
    List (P × Option C) :=
  let creates := disk.keys.filter fun p => (known.get p).isNone
  let updates := disk.keys.filter fun p => (known.get p).isSome ∧ known.get p ≠ disk.get p
  let deletes := known.keys.filter fun p => (disk.get p).isNone ∧ ¬ unreadable p
  (creates ++ updates ++ deletes).map fun p => (p, disk.get p)

def contents : Dict P C := s.heads.map Prod.snd

/-- `_seed_l3_from_disk`: where L3 wins, only a workspace without files is filled from the
directory. -/
def seedL3FromDisk (l3Wins : Bool) (unreadable : P → Bool) (disk : Dict P C) :
    List (P × Option C) :=
  if l3Wins then
    if s.heads.keys.isEmpty then disk.keys.map fun p => (p, disk.get p) else []
  else diskChanges s.contents unreadable disk

/-- `_handle_watch_batch`, for one path. The handler passes over its own writes, and where L3 wins
it takes new paths only. -/
def watchChange (l3Wins : Bool) (justWrote : List (P × C)) (changes : Dict P WatchChange)
    (disk : Dict P C) (p : P) : Option (P × Option C) :=
  let known := s.contents.get p
  if changes.get p = some .deleted then
    if l3Wins ∨ known.isNone then none else some (p, none)
  else (disk.get p).bind fun content =>
    if justWrote.any (fun own => own.1 = p ∧ own.2 = content) ∨ known = some content then none
    else if l3Wins ∧ ¬ (changes.get p = some .added ∧ known.isNone) then none
    else some (p, some content)

/-- `_capture_back`, against the snapshot of the binding. -/
def captureBack (snapshot : Dict P C) (unreadable : P → Bool) (disk : Dict P C) :
    List (P × Option C) :=
  diskChanges snapshot unreadable disk

/-- `recover` deletes nothing. -/
def recoverChanges (disk : Dict P C) : List (P × Option C) :=
  diskChanges s.contents (fun _ => true) disk

end Disk

variable [Inhabited C]

/-- One write or delete. Its version is a new one of the path, see `lt_nextJournalVersion`. -/
def record (s : FileJournal P C) : P × Option C → FileJournal P C
  | (p, content) =>
    let v := nextJournalVersion (s.versions p)
    let action := if content.isSome then .written else .deleted
    { versions := update s.versions p (⟨v, content.getD default, action⟩ :: s.versions p)
      heads := content.elim (s.heads.erase p) fun c => s.heads.set p (v, c)
      currentVersion := max s.currentVersion v }

def start : FileJournal P C := ⟨fun _ => [], .empty, 0⟩

lemma record_get (x : P × Option C) : (s.record x).heads.get =
    update s.heads.get x.1 (x.2.map fun c => (nextJournalVersion (s.versions x.1), c)) := by
  obtain ⟨p, content⟩ := x
  funext q
  obtain rfl | hq := eq_or_ne q p
  · cases content <;> simp [record]
  · cases content <;> simp [record, hq, Dict.get_erase_of_ne, Dict.get_set_of_ne]

def Coherent (s : FileJournal P C) : Prop :=
  ∀ p, Fits (s.versions p) (s.heads.get p) s.currentVersion

lemma Coherent.record (h : s.Coherent) (x : P × Option C) : (s.record x).Coherent := by
  intro p
  rw [record_get]
  refine forall_update₂ (I := fun _ rows head => Fits rows head _)
    (fun q => (h q).mono (le_max_left ..)) ?_ p
  obtain ⟨p, _ | c⟩ := x
  · exact (h p).cons (fun _ => lt_nextJournalVersion) nofun
  refine (h p).cons (fun _ => lt_nextJournalVersion) ?_
  rintro _ ⟨⟩
  exact le_max_right ..

lemma Coherent.batch (h : s.Coherent) (changes : List (P × Option C)) :
    (changes.foldl FileJournal.record s).Coherent ∧
      s.currentVersion ≤ (changes.foldl FileJournal.record s).currentVersion := by
  induction changes generalizing s with
  | nil => exact ⟨h, le_rfl⟩
  | cons x changes ih => exact (ih (h.record x)).imp_right (le_max_left ..).trans

def content (s : FileJournal P C) (p : P) : Option C := (s.heads.get p).map Prod.snd

lemma labelled_foldl_record (changes : List (P × Option C)) :
    labelled L ((changes.foldl record s).versions p) = labelled L (s.versions p) := by
  induction changes generalizing s with
  | nil => rfl
  | cons x changes ih =>
    rw [foldl_cons, ih]
    obtain ⟨q, c⟩ := x
    simp only [record]
    obtain rfl | hq := eq_or_ne p q
    · cases c <;> simp [labelled]
    · rw [update_of_ne hq]

lemma content_foldl_record (f : P → Option C) (ps : List P) :
    content ((ps.filterMap fun p => (f p).map fun c => (p, some c)).foldl record s) p =
      if p ∈ ps then (f p).or (s.content p) else s.content p := by
  induction ps generalizing s with
  | nil => rfl
  | cons q ps ih =>
    cases hq : f q with
      simp only [filterMap_cons, hq, Option.map_none, Option.map_some, foldl_cons, ih]
    | none => obtain rfl | hpq := eq_or_ne p q <;> simp [*]
    | some c =>
      simp only [content, record_get]
      obtain rfl | hpq := eq_or_ne p q <;> simp [*]

variable [DecidableEq C]

/-- One operation, `none` where it raises and commits nothing. -/
def step (s : FileJournal P C) : JournalOp P C → Option (FileJournal P C)
  | .batch changes => some (changes.foldl record s)
  | .seed l3Wins unreadable disk =>
    some ((s.seedL3FromDisk l3Wins unreadable disk).foldl record s)
  | .watchBatch l3Wins justWrote changes disk =>
    some ((changes.keys.filterMap (s.watchChange l3Wins justWrote changes disk)).foldl record s)
  | .captureBack snapshot unreadable disk =>
    some ((captureBack snapshot unreadable disk).foldl record s)
  | .recover disk => some ((s.recoverChanges disk).foldl record s)
  | .checkpoint label =>
    let tagged p (x : Nat × C) :=
      ⟨nextJournalVersion (s.versions p), x.2, .checkpoint label⟩ :: s.versions p
    some { s with versions := fun p => (s.heads.get p).elim (s.versions p) (tagged p) }
  | .rollback ref path =>
    -- the writes to other paths do not change what a path's reference is resolved to
    let changes := (s.rollbackSet path).filterMap fun p =>
      (resolveRef digits (s.versions p) ref).map fun row => (p, some row.content)
    if Readable digits ref ∨ s.rollbackSet path = [] then some (changes.foldl record s) else none
  | .reset template =>
    let v := s.currentVersion + 1
    if ∃ p ∈ template.keys ++ s.heads.keys, v ∈ (s.versions p).map JournalRow.version then none
    else some {
      versions := fun p =>
        match template.get p with
        | some content => ⟨v, content, .written⟩ :: s.versions p
        | none =>
          if (s.heads.get p).isSome then ⟨v, default, .deleted⟩ :: s.versions p else s.versions p
      heads := template.map fun content => (v, content)
      currentVersion := v }

def system : StepSystem (FileJournal P C) (JournalOp P C) := ⟨step digits⟩

/-- A reset is of paths without a row above `current_version`, such as that of a checkpoint, and a
rollback of files is to a reference that can be read. -/
def Applicable (s : FileJournal P C) : JournalOp P C → Prop
  | .reset template => ∀ p ∈ template.keys ++ s.heads.keys, ∀ r ∈ s.versions p,
      r.version ≤ s.currentVersion
  | .rollback ref path => Readable digits ref ∨ s.rollbackSet path = []
  | _ => True

instance : Decidable (s.Applicable digits op) := by
  unfold Applicable
  split <;> infer_instance

lemma Coherent.step (h : s.Coherent) (ho : s.Applicable digits op) :
    ∃ s', s.step digits op = some s' ∧ s'.Coherent ∧ s.currentVersion ≤ s'.currentVersion := by
  cases op with
  | batch | seed | watchBatch | captureBack | recover => exact ⟨_, rfl, h.batch _⟩
  | rollback ref path => exact ⟨_, if_pos ho, h.batch _⟩
  | checkpoint lab =>
    refine ⟨_, rfl, fun p => ?_, le_rfl⟩
    have hp := h p
    cases hh : s.heads.get p with (rw [hh] at hp; simp only [hh, Option.elim])
    | none => exact hp
    | some x => exact hp.cons (fun _ => lt_nextJournalVersion) hp.le
  | reset tem =>
    have hlt : ∀ p ∈ tem.keys ++ s.heads.keys, ∀ r ∈ s.versions p,
      r.version < s.currentVersion + 1 := fun p hp r hr => Nat.lt_succ_of_le (ho p hp r hr)
    have hnew : ¬ ∃ p ∈ tem.keys ++ s.heads.keys,
        s.currentVersion + 1 ∈ (s.versions p).map JournalRow.version := by
      rintro ⟨p, hp, hv⟩
      obtain ⟨r, hr, he⟩ := mem_map.1 hv
      exact (hlt p hp r hr).ne he
    refine ⟨_, if_neg hnew, fun p => ?_, Nat.le_succ _⟩
    have hp := h p
    simp only [Dict.get_map]
    cases hg : tem.get p with simp only [Option.map]
    | some c =>
      refine hp.cons (hlt p (mem_append_left _ (Dict.mem_keys.2 (by simp [hg])))) ?_
      rintro _ ⟨⟩
      exact le_rfl
    | none =>
      cases hh : s.heads.get p with rw [hh] at hp
      | some x =>
        refine hp.cons (hlt p (mem_append_right _ (Dict.mem_keys.2 (by simp [hh])))) ?_
        simp [headAfter]
      | none => exact hp.mono (Nat.le_succ _)

lemma labelled_step (hop : op ≠ .checkpoint L) (ht : s.step digits op = some s') :
    labelled L (s'.versions p) = labelled L (s.versions p) := by
  cases op with simp only [step] at ht
  | batch | seed | watchBatch | captureBack | recover =>
    cases ht
    exact labelled_foldl_record _
  | rollback =>
    split_ifs at ht
    cases ht
    exact labelled_foldl_record _
  | checkpoint lab =>
    cases ht
    have hl : lab ≠ L := fun he => hop (he ▸ rfl)
    cases hp : s.heads.get p <;> simp [hp, labelled, hl]
  | reset tem =>
    split_ifs at ht
    cases ht
    simp only
    split
    · simp [labelled]
    · split <;> simp [labelled]

/-- Rolling back to a label that was used once and that is neither `head` nor a number gives every
head file the content it had at the checkpoint, if it was a head file then, whatever was done since,
earlier rollbacks to the label among it. -/
theorem rollback_restores (as bs : List (JournalOp P C)) (hhead : L ≠ "head")
    (hdigits : digits L = none) (hpast : .checkpoint L ∉ as) (hlater : .checkpoint L ∉ bs)
    (hrun : (system digits).run start as = some s)
    (hrun' : (system digits).run s (.checkpoint L :: bs) = some t) :
    ∃ t', t.step digits (.rollback (.text L) none) = some t' ∧
      ∀ p, t'.content p = (t.content p).map fun c => (s.content p).getD c := by
  have hread : Readable digits (.text L) := .inr (by simp [hdigits])
  refine ⟨_, if_pos (.inl hread), fun p => ?_⟩
  have hb : labelled L (s.versions p) = [] :=
    run_invariant_mem (I := fun u => labelled L (u.versions p) = []) _ (fun u op hop u' hu hst =>
      (labelled_step digits (fun he => hpast (he ▸ hop)) hst).trans hu) rfl hrun
  have hrow : (labelled L (t.versions p)).map JournalRow.content = (s.content p).toList := by
    rw [run_cons, Option.bind_eq_some_iff] at hrun'
    obtain ⟨u, hst, hrun'⟩ := hrun'
    refine run_invariant_mem (I := fun u => (labelled L (u.versions p)).map JournalRow.content =
      (s.content p).toList) _ (fun u op hop u' hu hst => ?_) ?_ hrun'
    · rw [labelled_step digits (fun he => hlater (he ▸ hop)) hst, hu]
    cases hst
    simp only [labelled] at hb ⊢
    cases hp : s.heads.get p <;> simp [hp, content, hb]
  have ht : (resolveRef digits (t.versions p) (.text L)).map JournalRow.content =
      s.content p := by
    simp only [resolveRef, hhead, hdigits]
    exact newest_content hrow
  have hc := content_foldl_record (s := t) (p := p) (fun p =>
    (resolveRef digits (t.versions p) (.text L)).map JournalRow.content) t.heads.keys
  simp only [Option.map_map, ht] at hc
  simp only [rollbackSet, Option.all_none, filter_true]
  refine hc.trans ?_
  cases hg : t.heads.get p with
  | none => simp [Dict.mem_keys, content, hg]
  | some x => cases hs : s.content p <;> simp [Dict.mem_keys, content, hg]

theorem rollback_restores_again : ∃ s t t' : FileJournal Nat Nat,
    (system fun _ => none).run start [.batch [(0, some 1)]] = some s ∧
      (system fun _ => none).run s [.checkpoint "a", .batch [(0, some 2), (1, some 3)],
        .rollback (.text "a") none, .batch [(0, none), (0, some 4)]] = some t ∧
      t.step (fun _ => none) (.rollback (.text "a") none) = some t' ∧
      t.content 0 = some 4 ∧ t'.content 0 = some 1 ∧ t'.content 1 = some 3 := by
  obtain ⟨t', ht, ht'⟩ := rollback_restores (fun _ => none) [.batch [(0, some 1)]]
    [.batch [(0, some 2), (1, some 3)], .rollback (.text "a") none, .batch [(0, none), (0, some 4)]]
    (by decide : "a" ≠ "head") rfl (by simp) (by simp) rfl rfl
  exact ⟨_, _, t', rfl, rfl, ht, rfl, ht' 0, ht' 1⟩

/-- The rollback takes the label for the newest row. -/
theorem rollback_to_head_label : ∃ s : FileJournal Nat Nat,
    (system fun _ => none).run start [.batch [(0, some 1)], .checkpoint "head",
        .batch [(0, some 2)], .rollback (.text "head") none] = some s ∧ s.content 0 = some 2 :=
  ⟨_, rfl, rfl⟩

end FileJournal

end ThreeTears
