import ThreeTears.Lib.StepSystem
import ThreeTears.Lib.KvRequest
import ThreeTears.Snapshot.Pointers

/-!
# The index of published scopes

A publish moves its scope's pointer and then adds the scope to the index; a removal deletes the
pointer and then takes the scope out, and puts it back where it finds a pointer standing again.
Pointers and index are keys of one bucket, each moved by compare-and-set.
-/

namespace ThreeTears

open Function

variable {K T O κ : Type*}

/-- The index: the scopes published. It is not whole where a publish created it. -/
structure IndexBody (K : Type*) where
  scopes : Finset K
  incomplete : Bool

/-- What `_update_index` is asked for. -/
structure IndexUpdate (K : Type*) where
  add : Finset K
  remove : Finset K
  whole : Bool

/-- A removal's read of a pointer: its revision, and how many pointers were written by then. -/
structure PointerSeen where
  revision : Option Nat
  writes : Nat

/-- What a call does once the index is updated: a removal looks at the pointers again. `l3` is what
L3 held when the removal read it. -/
inductive AfterUpdate (K : Type*)
  | done
  | look (removed : List K) (l3 : Finset K)

inductive IndexPc (K T O : Type*)
  | idle
  | moving (k : K) (p : Pointer T O) (always : Bool)
  | swapping (k : K) (p : Pointer T O) (always : Bool) (revision : Option Nat)
  | movingExactly (k : K) (p : Pointer T O) (revision : Option Nat)
  | indexing (update : IndexUpdate K) (after : AfterUpdate K)
  | settling (update : IndexUpdate K) (after : AfterUpdate K) (revision : Option Nat)
      (body : IndexBody K)
  | reading (candidates left : List K) (seen : K → PointerSeen)
  | scanning (candidates : List K) (seen : K → PointerSeen)
  | deleting (left : List K) (seen : K → PointerSeen) (removed : List K) (l3 : Finset K)
  | looking (left standing : List K)

inductive IndexAct (K T O : Type*)
  | publish (k : K) (p : Pointer T O) (always : Bool)
  | publishExactly (k : K) (p : Pointer T O) (revision : Option Nat)
  | rebuilt (scopes : Finset K) (whole : Bool)
  | remove (candidates : List K)
  | next
  | lose

inductive IndexEvent (K T O κ : Type*)
  | call (c : κ) (a : IndexAct K T O)
  | l3 (scopes : Finset K)

/-- `writes` counts the pointers written, and `writtenAt` has for each scope the count of its last.
-/
structure IndexRun (K T O κ : Type*) where
  pointers : K → KvKey (Option (Pointer T O))
  index : KvKey (IndexBody K)
  l3 : Finset K
  calls : κ → IndexPc K T O
  writes : Nat
  writtenAt : K → Nat

namespace IndexRun

def indexed (s : IndexRun K T O κ) : Finset K := s.index.value.elim ∅ IndexBody.scopes

def Standing (s : IndexRun K T O κ) (k : K) : Prop := (s.pointers k).value.isSome
deriving Decidable

variable [DecidableEq K] [DecidableEq κ] [Fintype T] [DecidableEq O] (s : IndexRun K T O κ) (c : κ)

def setPc (pc : IndexPc K T O) : IndexRun K T O κ := { s with calls := update s.calls c pc }

def write (k : K) (kv : KvKey (Option (Pointer T O))) : IndexRun K T O κ :=
  { s with
    pointers := update s.pointers k kv
    writes := s.writes + 1
    writtenAt := update s.writtenAt k (s.writes + 1) }

def delete (k : K) (kv : KvKey (Option (Pointer T O))) : IndexRun K T O κ :=
  { s with pointers := update s.pointers k kv }

def added (k : K) : IndexPc K T O := .indexing ⟨{k}, ∅, false⟩ .done

/-- Where a call goes on after `_update_index`. -/
def resumed : AfterUpdate K → IndexPc K T O
  | .done => .idle
  | .look removed _ => .looking removed []

/-- What `_update_index` makes of the index. -/
def wanted (update : IndexUpdate K) (held : Option (IndexBody K)) : IndexBody K where
  scopes := (held.elim ∅ IndexBody.scopes ∪ update.add) \ update.remove
  incomplete := held.elim true IndexBody.incomplete && !update.whole

def Unchanged (update : IndexUpdate K) (held : Option (IndexBody K)) : Prop :=
  ∃ b ∈ held, (wanted update held).scopes = b.scopes ∧ (wanted update held).incomplete =
    b.incomplete
deriving Decidable

def next : Option (IndexRun K T O κ) :=
  match s.calls c with
  | .idle => none
  | .moving k p always =>
    match (s.pointers k).getEntry with
    | none => some (s.setPc c (.swapping k p always none))
    | some (held, revision) =>
      -- an entry that cannot be read is moved past
      if p.Supersedes held then some (s.setPc c (.swapping k p always (some revision)))
      else some (s.setPc c (if always then added k else .idle))
  | .swapping k p always revision =>
    match (s.pointers k).swap (some p) revision with
    | some kv => some ((s.write k kv).setPc c (added k))
    | none => some (s.setPc c (.moving k p always))
  | .movingExactly k p revision =>
    match (s.pointers k).swap (some p) revision with
    | some kv => some ((s.write k kv).setPc c (added k))
    | none => some (s.setPc c .idle)
  | .indexing update after =>
    if Unchanged update s.index.value then some (s.setPc c (resumed after))
    else some (s.setPc c (.settling update after (s.index.getEntry.map Prod.snd)
      (wanted update s.index.value)))
  | .settling update after revision body =>
    match s.index.swap body revision with
    | some kv => some ({ s with index := kv }.setPc c (resumed after))
    | none => some (s.setPc c (.indexing update after))
  | .reading candidates (k :: left) seen =>
    some (s.setPc c (.reading candidates left
      (update seen k ⟨(s.pointers k).getEntry.map Prod.snd, s.writes⟩)))
  | .reading candidates [] seen => some (s.setPc c (.scanning candidates seen))
  | .scanning candidates seen =>
    some (s.setPc c (.deleting (candidates.filter (· ∉ s.l3)) seen [] s.l3))
  | .deleting (k :: left) seen removed l3 =>
    match (seen k).revision with
    | none => some (s.setPc c (.deleting left seen (removed ++ [k]) l3))
    | some revision =>
      match (s.pointers k).deleteAt revision with
      | some kv => some ((s.delete k kv).setPc c (.deleting left seen (removed ++ [k]) l3))
      | none => some (s.setPc c (.deleting left seen removed l3))
  | .deleting [] _ removed l3 =>
    if removed = [] then some (s.setPc c .idle)
    else some (s.setPc c (.indexing ⟨∅, removed.toFinset, false⟩ (.look removed l3)))
  | .looking (k :: left) standing =>
    some (s.setPc c (.looking left (if s.Standing k then standing ++ [k] else standing)))
  | .looking [] standing =>
    if standing = [] then some (s.setPc c .idle)
    else some (s.setPc c (.indexing ⟨standing.toFinset, ∅, false⟩ .done))

def step (a : IndexAct K T O) : Option (IndexRun K T O κ) :=
  match a, s.calls c with
  | .publish k p always, .idle => some (s.setPc c (.moving k p always))
  | .publishExactly k p revision, .idle => some (s.setPc c (.movingExactly k p revision))
  | .rebuilt scopes whole, .idle => some (s.setPc c (.indexing ⟨scopes, ∅, whole⟩ .done))
  | .remove candidates, .idle =>
    some (s.setPc c (.reading candidates candidates fun _ => ⟨none, s.writes⟩))
  | .next, _ => s.next c
  | .lose, .swapping k p always none => some (s.setPc c (.moving k p always))
  | .lose, .movingExactly _ _ none => some (s.setPc c .idle)
  | .lose, .settling update after none _ => some (s.setPc c (.indexing update after))
  | _, _ => none

def system : StepSystem (IndexRun K T O κ) (IndexEvent K T O κ) where
  step s
    | .call c a => s.step c a
    | .l3 scopes => some { s with l3 := scopes }

def start (pointers : K → KvKey (Option (Pointer T O))) (index : KvKey (IndexBody K))
    (l3 : Finset K) : IndexRun K T O κ where
  pointers := pointers
  index := index
  l3 := l3
  calls := fun _ => .idle
  writes := 0
  writtenAt := fun _ => 0

/-- A move of a call that changes neither the pointers nor the index. -/
inductive Turn (s : IndexRun K T O κ) : IndexPc K T O → IndexAct K T O → IndexPc K T O → Prop
  | publish (k : K) (p : Pointer T O) (always : Bool) :
    Turn s .idle (.publish k p always) (.moving k p always)
  | publishExactly (k : K) (p : Pointer T O) (revision : Option Nat) :
    Turn s .idle (.publishExactly k p revision) (.movingExactly k p revision)
  | rebuilt (scopes : Finset K) (whole : Bool) :
    Turn s .idle (.rebuilt scopes whole) (.indexing ⟨scopes, ∅, whole⟩ .done)
  | remove (candidates : List K) :
    Turn s .idle (.remove candidates) (.reading candidates candidates fun _ => ⟨none, s.writes⟩)
  | found (k : K) (p : Pointer T O) (always : Bool) (revision : Option Nat) :
    Turn s (.moving k p always) .next (.swapping k p always revision)
  | passed (k : K) (p : Pointer T O) (always : Bool) :
    Turn s (.moving k p always) .next (if always then added k else .idle)
  | lostSwap (k : K) (p : Pointer T O) (always : Bool) (revision : Option Nat)
    (a : IndexAct K T O) :
    Turn s (.swapping k p always revision) a (.moving k p always)
  | lostExactly (k : K) (p : Pointer T O) (revision : Option Nat) (a : IndexAct K T O) :
    Turn s (.movingExactly k p revision) a .idle
  | unchanged (update : IndexUpdate K) (after : AfterUpdate K)
      (h : Unchanged update s.index.value) :
    Turn s (.indexing update after) .next (resumed after)
  | readIndex (update : IndexUpdate K) (after : AfterUpdate K) :
    Turn s (.indexing update after) .next (.settling update after
      (s.index.getEntry.map Prod.snd) (wanted update s.index.value))
  | lostSettle (update : IndexUpdate K) (after : AfterUpdate K) (revision : Option Nat)
      (body : IndexBody K) (a : IndexAct K T O) :
    Turn s (.settling update after revision body) a (.indexing update after)
  | readPointer (candidates left : List K) (k : K) (seen : K → PointerSeen) :
    Turn s (.reading candidates (k :: left) seen) .next (.reading candidates left
      (update seen k ⟨(s.pointers k).getEntry.map Prod.snd, s.writes⟩))
  | readAll (candidates : List K) (seen : K → PointerSeen) :
    Turn s (.reading candidates [] seen) .next (.scanning candidates seen)
  | scan (candidates : List K) (seen : K → PointerSeen) :
    Turn s (.scanning candidates seen) .next
      (.deleting (candidates.filter (· ∉ s.l3)) seen [] s.l3)
  | absent (k : K) (left : List K) (seen : K → PointerSeen) (removed : List K) (l3 : Finset K) :
    Turn s (.deleting (k :: left) seen removed l3) .next (.deleting left seen (removed ++ [k]) l3)
  | kept (k : K) (left : List K) (seen : K → PointerSeen) (removed : List K) (l3 : Finset K) :
    Turn s (.deleting (k :: left) seen removed l3) .next (.deleting left seen removed l3)
  | removedNone (seen : K → PointerSeen) (l3 : Finset K) :
    Turn s (.deleting [] seen [] l3) .next .idle
  | takeOut (seen : K → PointerSeen) (removed : List K) (l3 : Finset K) :
    Turn s (.deleting [] seen removed l3) .next
      (.indexing ⟨∅, removed.toFinset, false⟩ (.look removed l3))
  | look (k : K) (left standing : List K) :
    Turn s (.looking (k :: left) standing) .next
      (.looking left (if s.Standing k then standing ++ [k] else standing))
  | lookedNone : Turn s (.looking [] []) .next .idle
  | putBack (standing : List K) :
    Turn s (.looking [] standing) .next (.indexing ⟨standing.toFinset, ∅, false⟩ .done)

inductive Moves (s : IndexRun K T O κ) (c : κ) : IndexAct K T O → IndexRun K T O κ → Prop
  | turn (a : IndexAct K T O) (pc : IndexPc K T O) (h : s.Turn (s.calls c) a pc) :
    Moves s c a (s.setPc c pc)
  | write (k : K) (p : Pointer T O)
      (hpc : (∃ always revision, s.calls c = .swapping k p always revision) ∨
        ∃ revision, s.calls c = .movingExactly k p revision) :
    Moves s c .next ((s.write k ((s.pointers k).push (some (some p)))).setPc c (added k))
  | delete (k : K) (left : List K) (seen : K → PointerSeen) (removed : List K) (l3 : Finset K)
      (revision : Nat) (hpc : s.calls c = .deleting (k :: left) seen removed l3)
      (hseen : (seen k).revision = some revision)
      (hrevision : revision = 0 ∨ (s.pointers k).revision = revision) :
    Moves s c .next ((s.delete k ((s.pointers k).push none)).setPc c
      (.deleting left seen (removed ++ [k]) l3))
  | settle (update : IndexUpdate K) (after : AfterUpdate K) (revision : Option Nat)
      (body : IndexBody K) (hpc : s.calls c = .settling update after revision body)
      (hfresh : s.index.Fresh revision) :
    Moves s c .next ({ s with index := s.index.push (some body) }.setPc c (resumed after))

variable {s} {c} {s' : IndexRun K T O κ} {a : IndexAct K T O}

omit [Fintype T] [DecidableEq O] in
lemma Moves.of_turn {pc pc' : IndexPc K T O} (hpc : s.calls c = pc) (h : s.Turn pc a pc') :
    s.Moves c a (s.setPc c pc') :=
  .turn a pc' (hpc ▸ h)

theorem moves_of_next (hnext : s.next c = some s') : s.Moves c .next s' := by
  unfold next at hnext
  split at hnext <;> try cases hnext
  · next k p always hpc =>
    split at hnext
    · cases hnext
      exact .of_turn hpc (.found k p always none)
    split at hnext <;> cases hnext
    · exact .of_turn hpc (.found k p always _)
    · exact .of_turn hpc (.passed k p always)
  · next k p always rev hpc =>
    split at hnext <;> cases hnext
    · next hw =>
      obtain ⟨-, rfl⟩ := KvKey.swap_eq_some_iff.1 hw
      exact .write k p (.inl ⟨always, rev, hpc⟩)
    · exact .of_turn hpc (.lostSwap k p always rev _)
  · next k p rev hpc =>
    split at hnext <;> cases hnext
    · next hw =>
      obtain ⟨-, rfl⟩ := KvKey.swap_eq_some_iff.1 hw
      exact .write k p (.inr ⟨rev, hpc⟩)
    · exact .of_turn hpc (.lostExactly k p rev _)
  · next update after hpc =>
    split_ifs at hnext with h <;> cases hnext
    · exact .of_turn hpc (.unchanged update after h)
    · exact .of_turn hpc (.readIndex update after)
  · next update after rev body hpc =>
    split at hnext <;> cases hnext
    · next hw =>
      obtain ⟨hr, rfl⟩ := KvKey.swap_eq_some_iff.1 hw
      exact .settle update after rev body hpc hr
    · exact .of_turn hpc (.lostSettle update after rev body _)
  · next candidates k left seen hpc => exact .of_turn hpc (.readPointer candidates left k seen)
  · next candidates seen hpc => exact .of_turn hpc (.readAll candidates seen)
  · next candidates seen hpc => exact .of_turn hpc (.scan candidates seen)
  · next k left seen removed l3 hpc =>
    split at hnext
    · cases hnext
      exact .of_turn hpc (.absent k left seen removed l3)
    next rev hseen =>
    split at hnext <;> cases hnext
    · next hd =>
      obtain ⟨hrev, rfl⟩ := KvKey.deleteAt_eq_some_iff.1 hd
      exact .delete k left seen removed l3 rev hpc hseen hrev
    · exact .of_turn hpc (.kept k left seen removed l3)
  · next seen removed l3 hpc =>
    split_ifs at hnext with h <;> cases hnext
    · subst h
      exact .of_turn hpc (.removedNone seen l3)
    · exact .of_turn hpc (.takeOut seen removed l3)
  · next k left standing hpc => exact .of_turn hpc (.look k left standing)
  next standing hpc =>
  split_ifs at hnext with h <;> cases hnext
  · subst h
    exact .of_turn hpc .lookedNone
  · exact .of_turn hpc (.putBack standing)

theorem moves_of_step (ht : s.step c a = some s') : s.Moves c a s' := by
  unfold step at ht
  split at ht <;> try cases ht
  · next k p always hpc => exact .of_turn hpc (.publish k p always)
  · next k p rev hpc => exact .of_turn hpc (.publishExactly k p rev)
  · next scopes whole hpc => exact .of_turn hpc (.rebuilt scopes whole)
  · next candidates hpc => exact .of_turn hpc (.remove candidates)
  · exact moves_of_next ht
  · next k p always hpc => exact .of_turn hpc (.lostSwap k p always none _)
  · next k p hpc => exact .of_turn hpc (.lostExactly k p none _)
  · next update after body hpc => exact .of_turn hpc (.lostSettle update after none body _)

end IndexRun

end ThreeTears
