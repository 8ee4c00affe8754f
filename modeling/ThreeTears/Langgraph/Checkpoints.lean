import Mathlib.Data.List.MinMax
import ThreeTears.Collections.Generation
import ThreeTears.Lib.StepSystem

/-!
# The tiers of the checkpoint saver

One saver keeps the checkpoints of every customer's threads. L1 and L3 are keyed by the storage
thread id and the namespace, L2 by one joined text, and both caches keep a bundle that holds the
pending writes as of when it was cached.
-/

namespace ThreeTears

open Function List StepSystem

/-- What a call addresses. The customer is a UUID in its canonical text, and `storage_thread_id`
refuses what does not fit the column. -/
@[ext] structure Address where
  customer : { text : Text // text.length = 36 }
  thread : Text
  ns : Text
  fits : (customer.1 ++ '/' :: thread).length ≤ 255
  deriving DecidableEq

inductive WriteChannel
  | error | scheduled | interrupt | resume
  | ordinary (name : Text)
  deriving DecidableEq

def writesIdxMap : WriteChannel → Option Int
  | .error => some (-1)
  | .scheduled => some (-2)
  | .interrupt => some (-3)
  | .resume => some (-4)
  | .ordinary _ => none

structure WriteRow (β : Type*) where
  taskId : Nat
  idx : Int
  channel : WriteChannel
  blob : β
  deriving DecidableEq

/-- A stored checkpoint with its metadata. An id stands by its place in the order of the ids. -/
structure CheckpointRow (π : Type*) where
  id : Nat
  parent : Option Nat
  value : π
  deriving DecidableEq

structure Bundle (π β : Type*) where
  row : CheckpointRow π
  pendingWrites : List (Nat × WriteChannel × β)
  deriving DecidableEq

structure Checkpoints (π β : Type*) where
  rows : Text × Text → List (CheckpointRow π)
  writes : Text × Text → Nat → List (WriteRow β)
  l1 : Text × Text → Option (Bundle π β)
  l2 : Text → Option (Bundle π β)

structure L2Cache where
  revisions : Bool
  prefixes : Bool

inductive CheckpointAct (π β : Type*)
  | aput (address : Address) (row : CheckpointRow π)
  | aputWrites (address : Address) (id : Nat) (writes : List (WriteChannel × β)) (taskId : Nat)
  | agetTuple (address : Address) (id : Option Nat)
  | adeleteThread (address : Address)
  deriving DecidableEq

variable {π β : Type*}

namespace Address

def storageThreadId (a : Address) : Text := a.customer.1 ++ '/' :: a.thread

def l2Key (a : Address) : Text :=
  if a.ns = [] then a.storageThreadId else a.storageThreadId ++ '.' :: a.ns

def slot (a : Address) : Text × Text := (a.storageThreadId, a.ns)

lemma storageThreadId_inj {a b : Address} (h : a.storageThreadId = b.storageThreadId) :
    a.customer = b.customer ∧ a.thread = b.thread := by
  obtain ⟨hc, ht⟩ := append_inj h (a.customer.2.trans b.customer.2.symm)
  exact ⟨Subtype.ext hc, (cons.inj ht).2⟩

lemma replicate_fits {digit : Char} {thread : Text} (h : thread.length ≤ 218) :
    (replicate 36 digit ++ '/' :: thread).length ≤ 255 := by
  rw [length_append, length_replicate, length_cons]
  omega

/-- An address of the customer whose id is one digit over and over. -/
def ofDigit (digit : Char) (thread ns : Text) (h : thread.length ≤ 218 := by decide) : Address :=
  ⟨⟨replicate 36 digit, length_replicate⟩, thread, ns, replicate_fits h⟩

def zero (thread ns : Text) (h : thread.length ≤ 218 := by decide) : Address :=
  ofDigit '0' thread ns h

end Address

def CheckpointAct.address : CheckpointAct π β → Address
  | aput a _ | aputWrites a .. | agetTuple a _ | adeleteThread a => a

/-- A stored row of the task and index is kept, or replaced if the index is a control channel's. -/
def upsertWrite (rows : List (WriteRow β)) (row : WriteRow β) : List (WriteRow β) :=
  if rows.any fun r => r.taskId = row.taskId ∧ r.idx = row.idx then
    if row.idx < 0 then
      rows.map fun r => if r.taskId = row.taskId ∧ r.idx = row.idx then row else r
    else rows
  else rows ++ [row]

def buildWriteRows (writes : List (WriteChannel × β)) (taskId : Nat) : List (WriteRow β) :=
  (writes.zipIdx.map fun ((channel, value), n) =>
    ⟨taskId, (writesIdxMap channel).getD n, channel, value⟩).foldl upsertWrite []

def hasControl (writes : List (WriteChannel × β)) : Bool :=
  writes.any fun w => (writesIdxMap w.1).isSome

def pendingWrites (rows : List (WriteRow β)) : List (Nat × WriteChannel × β) :=
  (rows.mergeSort (·.idx ≤ ·.idx)).map fun r => (r.taskId, r.channel, r.blob)

namespace Checkpoints

variable {c : L2Cache} {s s' : Checkpoints π β} {a : Address} {act : CheckpointAct π β}

def l3GetTuple (s : Checkpoints π β) (a : Address) (id : Option Nat) : Option (Bundle π β) :=
  let rows := s.rows a.slot
  (id.elim (rows.argmax CheckpointRow.id) fun id => rows.find? (·.id = id)).map
    fun row => ⟨row, pendingWrites (s.writes a.slot row.id)⟩

/-- What `aget_tuple` returns. -/
def answer (s : Checkpoints π β) (a : Address) : Option Nat → Option (Bundle π β)
  | some id => s.l3GetTuple a (some id)
  | none => s.l1 a.slot <|> s.l2 a.l2Key <|> s.l3GetTuple a none

def exec (c : L2Cache) (s : Checkpoints π β) : CheckpointAct π β → Checkpoints π β
  | .aput a row =>
    { s with
      rows := update s.rows a.slot (row :: (s.rows a.slot).filter (·.id ≠ row.id))
      l2 := update s.l2 a.l2Key (some ⟨row, []⟩)
      l1 := update s.l1 a.slot (some ⟨row, []⟩) }
  | .aputWrites a id writes taskId =>
    let stored := (buildWriteRows writes taskId).foldl upsertWrite (s.writes a.slot id)
    let s := { s with writes := update s.writes a.slot (update (s.writes a.slot) id stored) }
    if hasControl writes then
      { s with
        l1 := fun k => if k.1 = a.storageThreadId then none else s.l1 k
        l2 := update s.l2 a.l2Key none }
    else s
  | .agetTuple a none =>
    match s.l1 a.slot, s.l2 a.l2Key, s.l3GetTuple a none with
    | none, some bundle, _ => { s with l1 := update s.l1 a.slot (some bundle) }
    | none, none, some bundle =>
      { s with
        l2 := if c.revisions then update s.l2 a.l2Key (some bundle) else s.l2
        l1 := update s.l1 a.slot (some bundle) }
    | _, _, _ => s
  | .agetTuple _ (some _) => s
  | .adeleteThread a =>
    let thread := a.storageThreadId
    { writes := fun k => if k.1 = thread then fun _ => [] else s.writes k
      rows := fun k => if k.1 = thread then [] else s.rows k
      l2 := fun key =>
        if key = thread ∨ c.prefixes ∧ (thread ++ ['.']) <+: key then none else s.l2 key
      l1 := fun k => if k.1 = thread then none else s.l1 k }

def system (c : L2Cache) : StepSystem (Checkpoints π β) (CheckpointAct π β) :=
  ⟨fun s act => some (s.exec c act)⟩

def start : Checkpoints π β := ⟨fun _ => [], fun _ _ => [], fun _ => none, fun _ => none⟩

/-- A call brings a bundle of its own put, or what its read answers. -/
def Brings (s : Checkpoints π β) (act : CheckpointAct π β) (b : Bundle π β) : Prop :=
  act = .aput act.address b.row ∨ s.answer act.address none = some b

lemma of_exec_l1 {k : Text × Text} {b : Bundle π β} (h : (s.exec c act).l1 k = some b) :
    s.l1 k = some b ∨ k = act.address.slot ∧ s.Brings act b := by
  cases act with simp only [exec, update_apply] at h
  | aput => grind [Brings, CheckpointAct.address]
  | aputWrites => split_ifs at h <;> grind
  | agetTuple _ id =>
    cases id with simp only at h
    | some => exact .inl h
    | none => split at h <;> grind [Brings, answer, CheckpointAct.address, update_apply]
  | adeleteThread => grind

lemma of_exec_l2 {k : Text} {b : Bundle π β} (h : (s.exec c act).l2 k = some b) :
    s.l2 k = some b ∨ k = act.address.l2Key ∧ s.Brings act b := by
  cases act with simp only [exec, update_apply] at h
  | aput => grind [Brings, CheckpointAct.address]
  | aputWrites => split_ifs at h <;> grind [update_apply]
  | agetTuple _ id =>
    cases id with simp only at h
    | some => exact .inl h
    | none => split at h <;> grind [Brings, answer, CheckpointAct.address, update_apply]
  | adeleteThread => grind

/-! ### The caches against L3 -/

/-- The checkpoint ids increase and nothing was written for the put's id yet. Writes on ordinary
channels find no bundle cached or are not for the latest checkpoint, and a delete reaches the L2
entry. -/
def Withdrawn (c : L2Cache) (s : Checkpoints π β) : CheckpointAct π β → Prop
  | .aput a row => (∀ r ∈ s.rows a.slot, r.id < row.id) ∧ (s.writes a.slot row.id).isEmpty
  | .aputWrites a id writes _ =>
    hasControl writes ∨ ((s.l1 a.slot).isNone ∧ (s.l2 a.l2Key).isNone) ∨
      ∀ b ∈ s.l3GetTuple a none, b.row.id ≠ id
  | .agetTuple .. => True
  | .adeleteThread a => a.ns = [] ∨ c.prefixes

instance : Decidable (s.Withdrawn c act) := by
  cases act <;> unfold Withdrawn <;> infer_instance

def Cached (s : Checkpoints π β) (a : Address) : Prop :=
  ∀ b, s.l1 a.slot = some b ∨ s.l2 a.l2Key = some b → s.l3GetTuple a none = some b

lemma argmax_store {row : CheckpointRow π} {rows : List (CheckpointRow π)}
    (h : ∀ r ∈ rows, r.id < row.id) :
    (row :: rows.filter (·.id ≠ row.id)).argmax CheckpointRow.id = some row := by
  rw [argmax_cons]
  cases hm : (rows.filter (·.id ≠ row.id)).argmax CheckpointRow.id with
  | none => rfl
  | some r => exact if_neg (h r (mem_of_mem_filter (argmax_mem hm))).not_gt

lemma Cached.answer (h : s.Cached a) : s.answer a none = s.l3GetTuple a none := by
  unfold Checkpoints.answer
  cases hl1 : s.l1 a.slot with
  | some b => exact (h b (.inl hl1)).symm
  | none =>
    cases hl2 : s.l2 a.l2Key with
    | some b => exact (h b (.inr hl2)).symm
    | none => rfl

lemma Cached.exec (h : s.Cached a) (hact : act.address = a) (hw : s.Withdrawn c act) :
    (s.exec c act).Cached a := by
  subst hact
  intro b hb
  cases act with
    simp only [CheckpointAct.address, Withdrawn] at h hw hb ⊢
  | aput =>
    simp only [Checkpoints.exec, update_self, or_self, Option.some.injEq] at hb
    simp only [Checkpoints.exec, l3GetTuple, Option.elim, update_self, argmax_store hw.1]
    simp [← hb, isEmpty_iff.1 hw.2, pendingWrites]
  | aputWrites =>
    simp only [Checkpoints.exec] at hb ⊢
    split_ifs at hb ⊢ with hc
    · simp [Address.slot] at hb
    obtain hw | hw | hw := hw
    · exact absurd hw hc
    · rw [Option.isNone_iff_eq_none, Option.isNone_iff_eq_none] at hw
      simp [hw] at hb
    obtain ⟨row, hrow, rfl⟩ := Option.map_eq_some_iff.1 (h b hb)
    exact Option.map_eq_some_iff.2 ⟨row, hrow, by simp [update_of_ne (hw _ (h _ hb))]⟩
  | agetTuple a id =>
    have hl3 : (s.exec c (.agetTuple a id)).l3GetTuple a none = s.l3GetTuple a none := by
      cases id with
      | some => rfl
      | none =>
        simp only [Checkpoints.exec]
        split <;> rfl
    rw [hl3]
    have hr (hb : s.Brings (.agetTuple a id) b) : s.l3GetTuple a none = some b := by
      obtain hb | hb := hb
      · cases hb
      · exact h.answer ▸ hb
    obtain hb | hb := hb
    · exact (of_exec_l1 hb).elim (fun hb => h b (.inl hb)) fun hb => hr hb.2
    · exact (of_exec_l2 hb).elim (fun hb => h b (.inr hb)) fun hb => hr hb.2
  | adeleteThread a =>
    have hkey : a.l2Key = a.storageThreadId ∨
        c.prefixes ∧ (a.storageThreadId ++ ['.']) <+: a.l2Key := by
      unfold Address.l2Key
      split_ifs with hns
      · exact .inl rfl
      · exact .inr ⟨hw.resolve_left hns, a.ns, by simp⟩
    simp [Checkpoints.exec, Address.slot, hkey] at hb

/-- On one thread and namespace, a read that names no checkpoint is the read of a saver without
caches. -/
theorem answer_eq_l3GetTuple {acts : List (CheckpointAct π β)}
    (hrun : ((system c).guard fun s act => act.address = a ∧ s.Withdrawn c act).run start acts =
      some s) : s.answer a none = s.l3GetTuple a none :=
  Cached.answer <| (system c).run_guard_invariant (I := fun s => s.Cached a)
    (fun s act s' h hw hstep => Option.some.inj hstep ▸ h.exec hw.1 hw.2) (by simp [Cached, start])
    hrun

theorem answer_eq_l3GetTuple_interrupt : ∃ s : Checkpoints Unit Unit,
      s.answer (.zero ['t'] []) none = some ⟨⟨1, none, ()⟩, [(7, .interrupt, ())]⟩ ∧
        s.answer (.zero ['t'] []) none = s.l3GetTuple (.zero ['t'] []) none :=
  have hrun : ∃ s : Checkpoints Unit Unit, ((system ⟨true, true⟩).guard fun s act =>
      act.address = .zero ['t'] [] ∧ s.Withdrawn ⟨true, true⟩ act).run start
        [.aput (.zero ['t'] []) ⟨1, none, ()⟩, .aputWrites (.zero ['t'] []) 1 [(.interrupt, ())] 7,
          .agetTuple (.zero ['t'] []) none] = some s ∧
      s.answer (.zero ['t'] []) none = some ⟨⟨1, none, ()⟩, [(7, .interrupt, ())]⟩ :=
    exists_run_of_any _ (by decide +kernel)
  hrun.imp fun s h => ⟨h.2, answer_eq_l3GetTuple h.1⟩

/-- The bundle of the put stays cached when a task's write on an ordinary channel is stored. -/
theorem answer_without_write : ∃ s : Checkpoints Unit Unit, (system ⟨true, true⟩).run start
      [.aput (.zero ['t'] []) ⟨1, none, ()⟩,
        .aputWrites (.zero ['t'] []) 1 [(.ordinary ['x'], ())] 7] = some s ∧
      s.answer (.zero ['t'] []) none = some ⟨⟨1, none, ()⟩, []⟩ ∧
      s.l3GetTuple (.zero ['t'] []) none = some ⟨⟨1, none, ()⟩, [(7, .ordinary ['x'], ())]⟩ :=
  exists_run_of_any _ (by decide +kernel)

/-! ### The keys of the tiers -/

/-- A thread id of the customer that goes on after another one and a dot is read in L2 as that
thread's namespace. -/
def Undotted (a b : Address) : Prop := a.customer = b.customer → ¬(a.thread ++ ['.']) <+: b.thread
deriving Decidable

def dotted : Text → Text
  | [] => []
  | x :: ns => '.' :: x :: ns

lemma l2Key_eq (a : Address) : a.l2Key = a.customer.1 ++ '/' :: (a.thread ++ dotted a.ns) := by
  unfold Address.l2Key Address.storageThreadId
  cases a.ns <;> simp [dotted]

lemma Undotted.eq_of_append {a b : Address} {m : Text} (h : Undotted a b)
    (hc : a.customer = b.customer) (ht : b.thread = a.thread ++ m)
    (hns : dotted a.ns = m ++ dotted b.ns) : a = b := by
  cases m with
  | nil =>
    apply Address.ext hc (by simp [ht])
    cases ha : a.ns <;> cases hb : b.ns <;> simp_all [dotted]
  | cons _ m =>
    cases ha : a.ns with rw [ha] at hns
    | nil => cases hns
    | cons =>
      obtain ⟨rfl, -⟩ := cons.inj hns
      exact absurd ⟨m, by simp [ht]⟩ (h hc)

lemma l2Key_inj {a b : Address} (hb : Undotted a b) (hba : Undotted b a) (h : a.l2Key = b.l2Key) :
    a = b := by
  rw [l2Key_eq, l2Key_eq] at h
  obtain ⟨hc, h⟩ := append_inj h (a.customer.2.trans b.customer.2.symm)
  obtain ⟨m, ht, hns⟩ | ⟨m, ht, hns⟩ := append_eq_append_iff.1 (cons.inj h).2
  · exact hb.eq_of_append (Subtype.ext hc) ht hns
  · exact (hba.eq_of_append (Subtype.ext hc.symm) ht hns).symm

/-- All that the tiers keep under the keys of an address was put there. -/
def Own (acts : List (CheckpointAct π β)) (s : Checkpoints π β) (a : Address) : Prop :=
  (∀ b, s.l1 a.slot = some b ∨ s.l2 a.l2Key = some b → .aput a b.row ∈ acts) ∧
    ∀ row ∈ s.rows a.slot, .aput a row ∈ acts

variable {acts : List (CheckpointAct π β)} {b : Bundle π β} {id : Option Nat}

lemma Own.l3GetTuple (h : s.Own acts a) (hb : s.l3GetTuple a id = some b) :
    .aput a b.row ∈ acts := by
  obtain ⟨row, hrow, rfl⟩ := Option.map_eq_some_iff.1 hb
  cases id with
  | none => exact h.2 row (argmax_mem hrow)
  | some => exact h.2 row (mem_of_find?_eq_some hrow)

lemma Own.answer (h : s.Own acts a) (hb : s.answer a id = some b) : .aput a b.row ∈ acts := by
  cases id with
  | some => exact h.l3GetTuple hb
  | none =>
    rcases hl1 : s.l1 a.slot with _ | b₁ <;> rcases hl2 : s.l2 a.l2Key with _ | b₂ <;>
      simp only [answer, hl1, hl2] at hb
    · exact h.l3GetTuple hb
    · exact h.1 b (.inr (hl2.trans hb))
    all_goals exact h.1 b (.inl (hl1.trans hb))

lemma Own.exec (h : s.Own acts a) (hact : act ∈ acts)
    (hkeys : a.slot = act.address.slot ∨ a.l2Key = act.address.l2Key → a = act.address) :
    (s.exec c act).Own acts a := by
  have hbr (ha : a = act.address) {b : Bundle π β} (hb : s.Brings act b) :
      .aput a b.row ∈ acts := by
    obtain hb | hb := hb
    · rwa [ha, ← hb]
    · exact h.answer (ha ▸ hb)
  constructor
  · rintro b (hb | hb)
    · obtain hb | ⟨hk, hb⟩ := of_exec_l1 hb
      exacts [h.1 b (.inl hb), hbr (hkeys (.inl hk)) hb]
    obtain hb | ⟨hk, hb⟩ := of_exec_l2 hb
    exacts [h.1 b (.inr hb), hbr (hkeys (.inr hk)) hb]
  intro r hr
  cases act with simp only [exec, update_apply] at hr
  | aput => grind [Own, CheckpointAct.address]
  | aputWrites => split_ifs at hr <;> exact h.2 r hr
  | agetTuple _ id =>
    cases id with simp only at hr
    | some => exact h.2 r hr
    | none => split at hr <;> exact h.2 r hr
  | adeleteThread => grind [Own]

/-- Every read answers a checkpoint put at its own address. -/
theorem own_of_answer {A : Set Address} (hdots : ∀ a ∈ A, ∀ b ∈ A, Undotted a b)
    (hacts : ∀ act ∈ acts, act.address ∈ A) (hrun : (system c).run start acts = some s) :
    (∀ a ∈ A, ∀ b ∈ A, a.l2Key = b.l2Key → a = b) ∧
      (∀ a b : Address, a.storageThreadId = b.storageThreadId →
        a.customer = b.customer ∧ a.thread = b.thread) ∧
      ∀ a ∈ A, ∀ id b, s.answer a id = some b → .aput a b.row ∈ acts := by
  have hkeys : ∀ a ∈ A, ∀ b ∈ A, a.l2Key = b.l2Key → a = b :=
    fun a ha b hb => l2Key_inj (hdots a ha b hb) (hdots b hb a ha)
  refine ⟨hkeys, fun a b => Address.storageThreadId_inj, fun a ha id b => Own.answer ?_⟩
  refine (system c).run_invariant_mem (I := fun s => ∀ a ∈ A, s.Own acts a)
    (fun s act hact s' h he a ha => Option.some.inj he ▸ (h a ha).exec hact ?_)
    (by simp [Own, start]) hrun a ha
  rintro (hk | hk)
  · obtain ⟨hst, hns⟩ := Prod.mk.inj hk
    obtain ⟨hc, ht⟩ := Address.storageThreadId_inj hst
    exact Address.ext hc ht hns
  · exact hkeys a ha _ (hacts act hact) hk

/-- Two customers with a thread of one name, of which one has a second thread, and two
namespaces. -/
def neighbours : List Address :=
  [.zero ['t'] [], .zero ['t'] ['n'], .zero ['u'] ['n'], .ofDigit '1' ['t'] [],
    .ofDigit '1' ['t'] ['n']]

/-- Each address has a checkpoint of its own; the caches of one thread are withdrawn, and filled
again by a read. -/
def neighbourActs : List (CheckpointAct Unit Unit) :=
  (neighbours.zipIdx.map fun x => .aput x.1 ⟨x.2, none, ()⟩) ++
    [.aputWrites (.zero ['t'] ['n']) 1 [(.interrupt, ())] 7, .agetTuple (.zero ['t'] ['n']) none]

theorem own_of_answer_neighbours : ∃ s : Checkpoints Unit Unit,
      (system ⟨true, true⟩).run start neighbourActs = some s ∧
        neighbours.map (fun a => (s.answer a none).map (·.row.id)) =
          [some 0, some 1, some 2, some 3, some 4] ∧
        ∀ a ∈ neighbours, ∀ id b, s.answer a id = some b → .aput a b.row ∈ neighbourActs := by
  have hdots : ∀ a ∈ neighbours, ∀ b ∈ neighbours, Undotted a b := by decide +kernel
  have hacts : ∀ act ∈ neighbourActs, act.address ∈ neighbours := by decide +kernel
  refine exists_run_and _ (by decide +kernel) fun _ hrun _ => ?_
  exact (own_of_answer (A := { a | a ∈ neighbours }) hdots hacts hrun).2.2

/-- One customer's thread `a.b` is read as the namespace `b` of the thread `a`. -/
theorem answer_of_other_thread : ∃ s : Checkpoints Unit Unit, (system ⟨true, true⟩).run start
      [.aput (.zero ['a', '.', 'b'] []) ⟨1, none, ()⟩] = some s ∧
      s.answer (.zero ['a'] ['b']) none = some ⟨⟨1, none, ()⟩, []⟩ :=
  exists_run_of_any _ (by decide +kernel)

end Checkpoints

end ThreeTears
