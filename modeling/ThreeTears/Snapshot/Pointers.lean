import Mathlib.Data.Fintype.Pi
import Mathlib.Data.List.MinMax

/-!
# A scope's pointer

A pointer names the chunks of every table of a scope at an epoch: for each table a base, and the
pieces that later writes added after it. A stage is the change from a scope's rows at one epoch to
its rows at another; kept stages carry a pointer on, each from its own base.
-/

namespace ThreeTears

variable {T O : Type*}

structure Piece (O : Type*) where
  name : O
  rows : Nat
  epoch : Nat
  size : Nat
  deriving DecidableEq

structure Chain (O : Type*) where
  base : O
  rows : Nat
  pieces : List (Piece O)
  deriving DecidableEq

@[ext] structure Pointer (T O : Type*) where
  epoch : Nat
  tables : T → Chain O

instance [Fintype T] [DecidableEq O] : DecidableEq (Pointer T O) :=
  fun _ _ => decidable_of_iff' _ Pointer.ext_iff

/-- A chunk that is written: whole, or the rows that a write added. -/
structure ChunkWrite (O : Type*) where
  name : O
  rows : Nat
  size : Nat
  piece : Bool
  deriving DecidableEq

structure StagedScope (T O : Type*) where
  epoch : Nat
  tables : T → Option (ChunkWrite O)

/-- A stage that is kept, with the epoch whose rows it changes. -/
structure StageRecord (T O : Type*) where
  epoch : Nat
  base : Nat
  tables : T → Option (ChunkWrite O)

def StageRecord.of (stage : StagedScope T O) (base : Nat) : StageRecord T O where
  epoch := stage.epoch
  base := base
  tables := stage.tables

namespace Chain

def whole (w : ChunkWrite O) : Chain O := ⟨w.name, w.rows, []⟩

def append (chain : Chain O) (epoch : Nat) (w : ChunkWrite O) : Chain O :=
  { chain with pieces := chain.pieces ++ [⟨w.name, w.rows, epoch, w.size⟩] }

def names (chain : Chain O) : List O := chain.base :: chain.pieces.map Piece.name

def Same (chain chain' : Chain O) : Prop := chain.base = chain'.base ∧ chain.pieces = chain'.pieces

instance [DecidableEq O] (chain chain' : Chain O) : Decidable (chain.Same chain') :=
  inferInstanceAs (Decidable (_ ∧ _))

@[simp] lemma names_whole (w : ChunkWrite O) : (whole w).names = [w.name] := rfl

@[simp] lemma names_append (chain : Chain O) (epoch : Nat) (w : ChunkWrite O) :
    (chain.append epoch w).names = chain.names ++ [w.name] := by
  simp [append, names]

end Chain

namespace Pointer

variable [Fintype T]

def ofChains (epoch : Nat) (chains : T → Option (Chain O)) : Option (Pointer T O) :=
  if h : ∀ t, (chains t).isSome then some ⟨epoch, fun t => (chains t).get (h t)⟩ else none

lemma chains_of_ofChains {epoch : Nat} {cha : T → Option (Chain O)} {p : Pointer T O}
    (h : ofChains epoch cha = some p) : p.epoch = epoch ∧ ∀ t, cha t = some (p.tables t) := by
  unfold ofChains at h
  split_ifs at h with hsome
  cases h
  exact ⟨rfl, fun t => (Option.some_get (hsome t)).symm⟩

end Pointer

namespace StagedScope

def Whole (stage : StagedScope T O) : Prop := ∀ t, ∃ w ∈ stage.tables t, w.piece = false

instance [Fintype T] (stage : StagedScope T O) : Decidable stage.Whole :=
  inferInstanceAs (Decidable (∀ t, ∃ w ∈ stage.tables t, w.piece = false))

/-- A table's chunk in the stage where it is kept, and else in `rest`. -/
def chain (stage : StagedScope T O) (keeps : ChunkWrite O → Bool)
    (rest : T → Option (ChunkWrite O)) (t : T) : Option (Chain O) :=
  match stage.tables t with
  | some w => if keeps w then some (.whole w) else (rest t).map .whole
  | none => (rest t).map .whole

variable [Fintype T]

/-- `_new_scope`, with the empty chunks written for the tables left out: its pieces are bases. -/
def newScope (stage : StagedScope T O) (empty : T → Option (ChunkWrite O)) : Option (Pointer T O) :=
  Pointer.ofChains stage.epoch (stage.chain (fun _ => true) fun t =>
    (empty t).map fun w => { w with rows := 0 })

/-- `_filled`, with the tables left out and those appended to as L3 has them. -/
def filled (stage : StagedScope T O) (read : T → Option (ChunkWrite O)) : Option (Pointer T O) :=
  Pointer.ofChains stage.epoch (stage.chain (fun w => !w.piece) read)

end StagedScope

namespace Pointer

/-- Moving from the pointer held now moves the scope forward. -/
def Supersedes (p : Pointer T O) (held : Option (Pointer T O)) : Prop :=
  ∀ q ∈ held, q.epoch < p.epoch ∨ p.epoch = q.epoch ∧ p.tables ≠ q.tables

instance [Fintype T] [DecidableEq O] (p : Pointer T O) (held) : Decidable (p.Supersedes held) :=
  inferInstanceAs (Decidable (∀ q ∈ held, _ ∨ _ ∧ p.tables ≠ q.tables))

/-- The stage follows the pointer: it is of the pointer's epoch, and a piece is of a later one. -/
def Follows (base : Pointer T O) (record : StageRecord T O) : Prop :=
  base.epoch = record.base ∧ base.epoch ≤ record.epoch ∧
    (record.epoch = base.epoch → ∀ t, ∀ w ∈ record.tables t, w.piece = false)

instance [Fintype T] (base : Pointer T O) (record) : Decidable (base.Follows record) :=
  inferInstanceAs (Decidable (_ ∧ _ ∧ (_ → ∀ t, ∀ w ∈ record.tables t, w.piece = false)))

variable [Fintype T]

/-- The pointer that a stage moves `base` to: its whole tables, its pieces after the chains of
`base`, and the rest of `base`. -/
def onto (base : Pointer T O) (record : StageRecord T O) : Option (Pointer T O) :=
  if base.Follows record then
    some {
      epoch := record.epoch
      tables := fun t =>
        match record.tables t with
        | some w => if w.piece then (base.tables t).append record.epoch w else .whole w
        | none => base.tables t }
  else none

def following (epoch : Nat) (kept : List (StageRecord T O)) (upto : Option Nat) :
    List (StageRecord T O) :=
  kept.filter fun r => r.base = epoch ∧ epoch < r.epoch ∧ ∀ limit ∈ upto, r.epoch ≤ limit

def chainStep (p : Pointer T O) (kept : List (StageRecord T O)) (upto : Option Nat) :
    Option (Pointer T O) := ((following p.epoch kept upto).argmin StageRecord.epoch).bind p.onto

/-- The pointer carried on through the kept stages, each of which moves it at most once, since its
epoch rises with each. -/
def chainedIn (kept : List (StageRecord T O)) (upto : Option Nat) : Nat → Pointer T O → Pointer T O
  | 0, p => p
  | rounds + 1, p =>
    match p.chainStep kept upto with
    | some p' => chainedIn kept upto rounds p'
    | none => p

def chained (p : Pointer T O) (kept : List (StageRecord T O)) (upto : Option Nat) : Pointer T O :=
  chainedIn kept upto kept.length p

/-- The pointer that a stage moves `current` to, through the kept stages where `current` is behind
its base. `fresh` is the pointer of a scope new to the snapshot. -/
def completed (own : StageRecord T O) (current : Option (Pointer T O))
    (kept : List (StageRecord T O)) (fresh : Option (Pointer T O)) : Option (Pointer T O) :=
  match current with
  | none => if own.base = 0 then fresh else none
  | some p =>
    if own.base < p.epoch then none
    else
      let base := if p.epoch < own.base then p.chained kept (some own.base) else p
      if base.epoch = own.base then base.onto own else none

/-- The epoch of the earliest write that a stage's chain back from its base reaches with no stage
kept for it. -/
def awaitedFrom (kept : List (StageRecord T O)) : Nat → Nat → Nat
  | 0, epoch => epoch
  | rounds + 1, epoch =>
    match kept.find? fun r => r.epoch = epoch ∧ r.base < epoch with
    | some r => awaitedFrom kept rounds r.base
    | none => epoch

def awaited (carryAt : Nat) (kept : List (StageRecord T O)) (epoch : Nat) : Option Nat :=
  let reached := awaitedFrom kept kept.length carryAt
  if epoch < reached then some reached else none

variable {p q : Pointer T O} {r : StageRecord T O} {kept : List (StageRecord T O)}
  {upto : Option Nat}

lemma follows_of_onto (h : p.onto r = some q) : p.Follows r ∧ q.epoch = r.epoch := by
  unfold onto at h
  split_ifs at h with ho
  cases h
  exact ⟨ho, rfl⟩

omit [Fintype T] in
lemma mem_following_iff {epoch : Nat} : r ∈ following epoch kept upto ↔
    r ∈ kept ∧ r.base = epoch ∧ epoch < r.epoch ∧ ∀ limit ∈ upto, r.epoch ≤ limit := by
  simp [following]

lemma exists_onto_of_chainStep (h : p.chainStep kept upto = some q) :
    ∃ r ∈ kept, p.epoch < r.epoch ∧ (∀ lim ∈ upto, r.epoch ≤ lim) ∧ p.onto r = some q := by
  obtain ⟨r, hr, ho⟩ := Option.bind_eq_some_iff.1 h
  obtain ⟨hk, -, hlt, hu⟩ := mem_following_iff.1 (List.argmin_mem hr)
  exact ⟨r, hk, hlt, hu, ho⟩

lemma epoch_lt_of_chainStep (h : p.chainStep kept upto = some q) : p.epoch < q.epoch := by
  obtain ⟨r, -, hlt, -, ho⟩ := exists_onto_of_chainStep h
  rw [(follows_of_onto ho).2]
  exact hlt

theorem chained_induction {I : Pointer T O → Prop}
    (ht : ∀ p q, I p → p.chainStep kept upto = some q → I q) (hp : I p) :
    I (p.chained kept upto) := by
  unfold chained
  generalize kept.length = rou
  induction rou generalizing p with
  | zero => exact hp
  | succ rou ih =>
    unfold chainedIn
    cases hq : p.chainStep kept upto with
    | none => exact hp
    | some q => exact ih (ht p q hp hq)

lemma epoch_le_chained : p.epoch ≤ (p.chained kept upto).epoch :=
  chained_induction (I := fun q => p.epoch ≤ q.epoch)
    (fun _ _ h ht => h.trans (epoch_lt_of_chainStep ht).le) le_rfl

lemma chained_le {limit : Nat} (h : (p.chainStep kept (some limit)).isSome) :
    (p.chained kept (some limit)).epoch ≤ limit := by
  have ht : ∀ p q : Pointer T O, p.chainStep kept (some limit) = some q → q.epoch ≤ limit := by
    intro p q hq
    obtain ⟨r, -, -, hu, ho⟩ := exists_onto_of_chainStep hq
    rw [(follows_of_onto ho).2]
    exact hu limit rfl
  obtain ⟨q, hq⟩ := Option.isSome_iff_exists.1 h
  exact chained_induction (I := fun q => q.epoch ≤ limit) (fun p q _ => ht p q)
    ((epoch_lt_of_chainStep hq).le.trans (ht p q hq))

lemma epoch_of_completed {own : StageRecord T O} (h : completed own (some p) kept none = some q) :
    q.epoch = own.epoch := by
  simp only [completed] at h
  split_ifs at h with hlt hbehind hb hb <;> exact (follows_of_onto h).2

end Pointer

end ThreeTears
