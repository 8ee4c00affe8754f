import ThreeTears.Lib.StepSystem
import Mathlib.Data.List.Dedup

/-!
# An object store on a stream

An object is many chunk messages on a subject of its own and one metadata message, published last
and only while its name has none. A writer holds a claim in the pointer bucket. A delete purges the
chunks and then the metadata; a sweep purges chunks that no object names, judged from three
listings.
-/

namespace ThreeTears

variable {N U β D κ : Type*}

/-- How objects are cut and checked. No two contents have the same digest. -/
structure ObjectSetup (β D : Type*) where
  chunkBytes : Nat
  chunkBytes_pos : 0 < chunkBytes
  digest : List β → D
  digest_injective : Function.Injective digest

abbrev BucketKey := List (List Char)

/-- `is_write_claim_key`: `{name}.w.{epoch}.{writer}`. -/
def isWriteClaimKey : BucketKey → Bool
  | [name, segment, epoch, writer] =>
    segment = ['w'] && (epoch ≠ [] && epoch.all Char.isDigit) && (name ≠ [] && writer ≠ [])
  | _ => false

structure ObjectInfo (N U D : Type*) where
  name : N
  nuid : U
  size : Nat
  chunks : Nat
  digest : D

/-- What became of a message: acknowledged; in the stream, but not acknowledged in time; or never in
the stream. -/
inductive Published
  | acked
  | unacked
  | dropped

/-- What a get answered. `expected` is what the put of that name that had returned by its start
wrote; `undeleted`: no delete of the name had begun by its end. -/
structure GetAnswer (N β : Type*) where
  name : N
  expected : Option (List β)
  undeleted : Bool
  result : Option (List β)

inductive StorePc (N U β D : Type*)
  | idle
  | holding (key : BucketKey)
  | checking (key : BucketKey) (name : N) (data : List β)
  | writing (key : BucketKey) (name : N) (nuid : U) (data : List β) (left : List (List β))
  | getting (name : N) (expected : Option (List β))
  | fetching (name : N) (expected : Option (List β)) (info : ObjectInfo N U D)
  | deleting (name : N)
  | purging (name : N) (nuid : U)
  | unnaming (name : N)
  | listing
  | askingClaims (subjects : List U)
  | counting (subjects : List U)
  | listingNames (subjects : List U)
  | readingNames (subjects : List U) (left : List N) (named : List U)
  | sweeping (left : List U)

namespace StorePc

def key : StorePc N U β D → Option BucketKey
  | .holding key | .checking key _ _ | .writing key _ _ _ _ => some key
  | _ => none

def nuid : StorePc N U β D → Option U
  | .writing _ _ nuid _ _ => some nuid
  | _ => none

def naming : StorePc N U β D → Option N
  | .writing _ name _ _ [] => some name
  | _ => none

end StorePc

inductive StoreAct (N U β : Type*)
  | claim (key : BucketKey)
  | release
  | put (name : N) (data : List β)
  | startPut (nuid : U)
  | publish (outcome : Published)
  | get (name : N)
  | delete (name : N)
  | sweep
  | next
  | fail

/-- A call moves, or another key of the pointer bucket comes or goes. -/
inductive StoreEvent (N U β κ : Type*)
  | call (c : κ) (a : StoreAct N U β)
  | addKey (key : BucketKey)
  | dropKey (key : BucketKey)

/-- The stream, the keys of the pointer bucket and the calls. For the record: the puts started and
returned, the names whose delete began and whose metadata was purged, the subjects that sweeps
purged, and the gets' answers. -/
structure ObjectStore (N U β D κ : Type*) where
  chunks : List (U × List β)
  metas : List (ObjectInfo N U D)
  keys : List BucketKey
  calls : κ → StorePc N U β D
  puts : List (U × N × List β)
  returned : List (N × List β)
  begun : List N
  deleted : List N
  swept : List U
  answers : List (GetAnswer N β)

namespace ObjectSetup

variable (x : ObjectSetup β D)

/-- `_split_and_digest`: the chunks of some bytes. -/
def split (data : List β) : List (List β) :=
  (List.range ((data.length + x.chunkBytes - 1) / x.chunkBytes)).map fun i =>
    (data.drop (i * x.chunkBytes)).take x.chunkBytes

def record (name : N) (nuid : U) (data : List β) : ObjectInfo N U D where
  name := name
  nuid := nuid
  size := data.length
  chunks := (x.split data).length
  digest := x.digest data

/-- `get`: the chunks that arrived, checked against the metadata. -/
def joined [DecidableEq D] (info : ObjectInfo N U D) (messages : List (List β)) : Option (List β) :=
  if (messages.take info.chunks).length < info.chunks then none
  else
    let data := (messages.take info.chunks).flatten
    if data.length ≠ info.size ∨ x.digest data ≠ info.digest then none else some data

end ObjectSetup

/-- `STREAM_INFO_SUBJECTS_CAP`. -/
def subjectsCap : Nat := 100000

/-- `stream_subjects`: a listing asks for the next page until one comes back short. -/
def streamSubjects {S : Type*} (cap : Nat) : Nat → List S → List S
  | 0, _ => []
  | pages + 1, rest =>
    let page := rest.take cap
    if cap ≤ page.length then page ++ streamSubjects cap pages (rest.drop cap) else page

namespace ObjectStore

variable [DecidableEq N] [DecidableEq U] [DecidableEq κ] (s : ObjectStore N U β D κ) (c : κ)

def chunksOf (nuid : U) : List (List β) := (s.chunks.filter (·.1 = nuid)).map Prod.snd

/-- `_raw_info`: the latest metadata of a name. -/
def rawInfo (name : N) : Option (ObjectInfo N U D) := (s.metas.filter (·.name = name)).getLast?

def chunkSubjects : List U :=
  streamSubjects subjectsCap (s.chunks.length + 1) (s.chunks.map Prod.fst).dedup

def names : List N :=
  streamSubjects subjectsCap (s.metas.length + 1) (s.metas.map ObjectInfo.name).dedup

def returnedOf (name : N) : Option (List β) := (s.returned.find? (·.1 = name)).map Prod.snd

def setPc (pc : StorePc N U β D) : ObjectStore N U β D κ :=
  { s with calls := Function.update s.calls c pc }

def answer (name : N) (expected result : Option (List β)) : ObjectStore N U β D κ :=
  { s with answers := s.answers ++ [⟨name, expected, name ∉ s.begun, result⟩] }

def addChunk (nuid : U) (piece : List β) : ObjectStore N U β D κ :=
  { s with chunks := s.chunks ++ [(nuid, piece)] }

def addMeta (info : ObjectInfo N U D) : ObjectStore N U β D κ :=
  { s with metas := s.metas ++ [info] }

def purgeChunks (nuid : U) : ObjectStore N U β D κ :=
  { s with chunks := s.chunks.filter (·.1 ≠ nuid) }

def purgeMeta (name : N) : ObjectStore N U β D κ :=
  { s with
    metas := s.metas.filter (·.name ≠ name)
    deleted := name :: s.deleted }

variable [DecidableEq D] (x : ObjectSetup β D)

/-- `put`, a message at a time. -/
def publish (key : BucketKey) (name : N) (nuid : U) (data : List β) (outcome : Published) :
    List (List β) → ObjectStore N U β D κ
  | piece :: left =>
    match outcome with
    | .acked => (s.addChunk nuid piece).setPc c (.writing key name nuid data left)
    | .unacked => (s.addChunk nuid piece).setPc c (.holding key)
    | .dropped => s.setPc c (.holding key)
  | [] =>
    -- the stream takes the metadata only while the name has none
    if (s.rawInfo name).isSome then s.setPc c (.holding key)
    else match outcome with
      | .acked =>
        { (s.addMeta (x.record name nuid data)).setPc c (.holding key) with
          returned := s.returned ++ [(name, data)] }
      | .unacked => (s.addMeta (x.record name nuid data)).setPc c (.holding key)
      | .dropped => s.setPc c (.holding key)

def next : Option (ObjectStore N U β D κ) :=
  match s.calls c with
  | .getting name expected =>
    some (match s.rawInfo name with
      | none => (s.answer name expected none).setPc c .idle
      | some info => s.setPc c (.fetching name expected info))
  | .fetching name expected info =>
    some ((s.answer name expected (x.joined info (s.chunksOf info.nuid))).setPc c .idle)
  | .deleting name =>
    some (match s.rawInfo name with
      | none => s.setPc c .idle
      | some info => s.setPc c (.purging name info.nuid))
  | .purging name nuid => some ((s.purgeChunks nuid).setPc c (.unnaming name))
  | .unnaming name => some ((s.purgeMeta name).setPc c .idle)
  | .listing => some (s.setPc c (.askingClaims s.chunkSubjects))
  | .askingClaims subjects =>
    some (s.setPc c (if s.keys.any isWriteClaimKey then .idle else .counting subjects))
  | .counting subjects =>
    some (s.setPc c (if subjects.length ≤ s.names.length then .idle else .listingNames subjects))
  | .listingNames subjects => some (s.setPc c (.readingNames subjects s.names []))
  | .readingNames subjects (name :: left) named =>
    some (s.setPc c (.readingNames subjects left
      (named ++ (s.rawInfo name).toList.map ObjectInfo.nuid)))
  | .readingNames subjects [] named => some (s.setPc c (.sweeping (subjects.filter (· ∉ named))))
  | .sweeping (nuid :: left) =>
    some ({ s.purgeChunks nuid with swept := nuid :: s.swept }.setPc c (.sweeping left))
  | .sweeping [] => some (s.setPc c .idle)
  | _ => none

def step (a : StoreAct N U β) : Option (ObjectStore N U β D κ) :=
  match a, s.calls c with
  | .claim key, .idle =>
    if isWriteClaimKey key ∧ key ∉ s.keys then
      some { s.setPc c (.holding key) with keys := key :: s.keys }
    else none
  | .release, .holding key => some { s.setPc c .idle with keys := s.keys.filter (· ≠ key) }
  | .put name data, .holding key => some (s.setPc c (.checking key name data))
  | .startPut nuid, .checking key name data =>
    if (s.rawInfo name).isSome then some (s.setPc c (.holding key))
    else if nuid ∉ s.puts.map Prod.fst then
      some { s.setPc c (.writing key name nuid data (x.split data)) with
        puts := s.puts ++ [(nuid, name, data)] }
    else none
  | .publish outcome, .writing key name nuid data left =>
    some (s.publish c x key name nuid data outcome left)
  | .get name, .idle => some (s.setPc c (.getting name (s.returnedOf name)))
  | .delete name, .idle => some { s.setPc c (.deleting name) with begun := name :: s.begun }
  | .sweep, .idle => some (s.setPc c .listing)
  | .next, _ => s.next c x
  | .fail, .checking key _ _ | .fail, .writing key _ _ _ _ => some (s.setPc c (.holding key))
  | .fail, .idle | .fail, .holding _ => none
  | .fail, _ => some (s.setPc c .idle)
  | _, _ => none

def system : StepSystem (ObjectStore N U β D κ) (StoreEvent N U β κ) where
  step s
    | .call c a => s.step c x a
    | .addKey key => if isWriteClaimKey key then none else some { s with keys := key :: s.keys }
    | .dropKey key =>
      if isWriteClaimKey key then none else some { s with keys := s.keys.filter (· ≠ key) }

def start : ObjectStore N U β D κ where
  chunks := []
  metas := []
  keys := []
  calls := fun _ => .idle
  puts := []
  returned := []
  begun := []
  deleted := []
  swept := []
  answers := []

def NotRewritten : StoreEvent N U β κ → Prop
  | .call c (.publish _) => ∀ name ∈ (s.calls c).naming, name ∉ s.deleted
  | _ => True

instance (e) : Decidable (s.NotRewritten e) := by
  unfold NotRewritten
  split <;> infer_instance

inductive Turn (s : ObjectStore N U β D κ) : StorePc N U β D → StorePc N U β D → Prop
  | ends (pc : StorePc N U β D) (hpc : pc.key = none) : Turn s pc .idle
  | fails (pc : StorePc N U β D) (key : BucketKey) (hpc : pc.key = some key) :
    Turn s pc (.holding key)
  | put (key : BucketKey) (name : N) (data : List β) :
    Turn s (.holding key) (.checking key name data)
  | get (name : N) : Turn s .idle (.getting name (s.returnedOf name))
  | found (name : N) (expected : Option (List β)) (info : ObjectInfo N U D)
      (hinfo : s.rawInfo name = some info) :
    Turn s (.getting name expected) (.fetching name expected info)
  | foundToDelete (name : N) (info : ObjectInfo N U D) (hinfo : s.rawInfo name = some info) :
    Turn s (.deleting name) (.purging name info.nuid)
  | sweep : Turn s .idle .listing
  | list : Turn s .listing (.askingClaims s.chunkSubjects)
  | noClaim (subjects : List U) (hkeys : ∀ key ∈ s.keys, isWriteClaimKey key = false) :
    Turn s (.askingClaims subjects) (.counting subjects)
  | many (subjects : List U) : Turn s (.counting subjects) (.listingNames subjects)
  | listNames (subjects : List U) :
    Turn s (.listingNames subjects) (.readingNames subjects s.names [])
  | readName (subjects : List U) (name : N) (left : List N) (named : List U) :
    Turn s (.readingNames subjects (name :: left) named) (.readingNames subjects left
      (named ++ (s.rawInfo name).toList.map ObjectInfo.nuid))
  | readAll (subjects named : List U) :
    Turn s (.readingNames subjects [] named) (.sweeping (subjects.filter (· ∉ named)))

/-- What a step of a call can do while no deleted name is written again. -/
inductive Moves (x : ObjectSetup β D) (s : ObjectStore N U β D κ) (c : κ) :
    ObjectStore N U β D κ → Prop
  | turn (pc : StorePc N U β D) (h : s.Turn (s.calls c) pc) : Moves x s c (s.setPc c pc)
  | claim (key : BucketKey) (hpc : s.calls c = .idle) (hkey : isWriteClaimKey key)
      (hfree : key ∉ s.keys) :
    Moves x s c { s.setPc c (.holding key) with keys := key :: s.keys }
  | release (key : BucketKey) (hpc : s.calls c = .holding key) :
    Moves x s c { s.setPc c .idle with keys := s.keys.filter (· ≠ key) }
  | startPut (key : BucketKey) (name : N) (data : List β) (nuid : U)
      (hpc : s.calls c = .checking key name data) (hfresh : nuid ∉ s.puts.map Prod.fst) :
    Moves x s c { s.setPc c (.writing key name nuid data (x.split data)) with
      puts := s.puts ++ [(nuid, name, data)] }
  | chunk (key : BucketKey) (name : N) (nuid : U) (data piece : List β) (left : List (List β))
      (pc : StorePc N U β D) (hpc : s.calls c = .writing key name nuid data (piece :: left))
      (hnext : pc = .writing key name nuid data left ∨ pc = .holding key) :
    Moves x s c ((s.addChunk nuid piece).setPc c pc)
  | name (key : BucketKey) (name : N) (nuid : U) (data : List β) (returned : List (N × List β))
      (hpc : s.calls c = .writing key name nuid data []) (hnone : s.rawInfo name = none)
      (hreturned : returned = [] ∨ returned = [(name, data)]) (hnew : name ∉ s.deleted) :
    Moves x s c { (s.addMeta (x.record name nuid data)).setPc c (.holding key) with
      returned := s.returned ++ returned }
  | absent (name : N) (expected : Option (List β)) (hpc : s.calls c = .getting name expected)
      (hnone : s.rawInfo name = none) :
    Moves x s c ((s.answer name expected none).setPc c .idle)
  | got (name : N) (expected : Option (List β)) (info : ObjectInfo N U D)
      (hpc : s.calls c = .fetching name expected info) :
    Moves x s c ((s.answer name expected (x.joined info (s.chunksOf info.nuid))).setPc c .idle)
  | delete (name : N) (hpc : s.calls c = .idle) :
    Moves x s c { s.setPc c (.deleting name) with begun := name :: s.begun }
  | purge (name : N) (nuid : U) (hpc : s.calls c = .purging name nuid) :
    Moves x s c ((s.purgeChunks nuid).setPc c (.unnaming name))
  | unname (name : N) (hpc : s.calls c = .unnaming name) :
    Moves x s c ((s.purgeMeta name).setPc c .idle)
  | sweep (nuid : U) (left : List U) (hpc : s.calls c = .sweeping (nuid :: left)) :
    Moves x s c ({ s.purgeChunks nuid with swept := nuid :: s.swept }.setPc c (.sweeping left))

variable {s c x} {s' : ObjectStore N U β D κ} {a : StoreAct N U β}

lemma Moves.of_turn {pc pc' : StorePc N U β D} (hpc : s.calls c = pc) (h : s.Turn pc pc') :
    s.Moves x c (s.setPc c pc') :=
  .turn pc' (hpc ▸ h)

lemma moves_of_publish {key : BucketKey} {name : N} {nuid : U} {data : List β}
    {ou : Published} {left : List (List β)} (hnew : ∀ name ∈ (s.calls c).naming, name ∉ s.deleted)
    (hpc : s.calls c = .writing key name nuid data left) :
    s.Moves x c (s.publish c x key name nuid data ou left) := by
  have hfa : s.Moves x c (s.setPc c (.holding key)) := .of_turn hpc (.fails _ key rfl)
  cases left with
  | cons piece left =>
    cases ou with
    | acked => exact .chunk key name nuid data piece left _ hpc (.inl rfl)
    | unacked => exact .chunk key name nuid data piece left _ hpc (.inr rfl)
    | dropped => exact hfa
  | nil =>
    unfold publish
    split_ifs with hsome
    · exact hfa
    have hnone : s.rawInfo name = none := Option.not_isSome_iff_eq_none.1 hsome
    have hnew : name ∉ s.deleted := hnew name (by rw [hpc]; rfl)
    cases ou with
    | acked => exact .name key name nuid data _ hpc hnone (.inr rfl) hnew
    | unacked =>
      have hm := Moves.name (x := x) key name nuid data [] hpc hnone (.inl rfl) hnew
      rw [List.append_nil] at hm
      exact hm
    | dropped => exact hfa

theorem moves_of_next (hnext : s.next c x = some s') : s.Moves x c s' := by
  unfold next at hnext
  cases hpc : s.calls c with simp only [hpc] at hnext
  | idle | holding | checking | writing => simp at hnext
  | getting name exp =>
    cases hnext
    cases hinfo : s.rawInfo name with
    | none => exact .absent name exp hpc hinfo
    | some info => exact .of_turn hpc (.found name exp info hinfo)
  | fetching name exp info =>
    cases hnext
    exact .got name exp info hpc
  | deleting name =>
    cases hnext
    cases hinfo : s.rawInfo name with
    | none => exact .of_turn hpc (.ends _ rfl)
    | some info => exact .of_turn hpc (.foundToDelete name info hinfo)
  | purging name nuid =>
    cases hnext
    exact .purge name nuid hpc
  | unnaming name =>
    cases hnext
    exact .unname name hpc
  | listing =>
    cases hnext
    exact .of_turn hpc .list
  | askingClaims sub =>
    cases hnext
    by_cases hkeys : s.keys.any isWriteClaimKey
    · rw [if_pos hkeys]
      exact .of_turn hpc (.ends _ rfl)
    rw [if_neg hkeys]
    exact .of_turn hpc (.noClaim sub (by simpa using hkeys))
  | counting sub =>
    cases hnext
    by_cases hc : sub.length ≤ s.names.length
    · rw [if_pos hc]
      exact .of_turn hpc (.ends _ rfl)
    rw [if_neg hc]
    exact .of_turn hpc (.many sub)
  | listingNames sub =>
    cases hnext
    exact .of_turn hpc (.listNames sub)
  | readingNames sub left named =>
    cases left with cases hnext
    | nil => exact .of_turn hpc (.readAll sub named)
    | cons name left => exact .of_turn hpc (.readName sub name left named)
  | sweeping left =>
    cases left with cases hnext
    | nil => exact .of_turn hpc (.ends _ rfl)
    | cons nuid left => exact .sweep nuid left hpc

theorem moves_of_step (hnew : s.NotRewritten (.call c a)) (ht : s.step c x a = some s') :
    s.Moves x c s' := by
  unfold step at ht
  split at ht <;> try cases ht
  · next key hpc =>
    split_ifs at ht with h
    cases ht
    exact .claim key hpc h.1 h.2
  · next hpc => exact .release _ hpc
  · next name data key hpc => exact .of_turn hpc (.put key name data)
  · next nuid key name data hpc =>
    split_ifs at ht with hinfo hr <;> cases ht
    · exact .of_turn hpc (.fails _ key rfl)
    · exact .startPut key name data nuid hpc hr
  · next hpc => exact moves_of_publish hnew hpc
  · next name hpc => exact .of_turn hpc (.get name)
  · next name hpc => exact .delete name hpc
  · next hpc => exact .of_turn hpc .sweep
  · exact moves_of_next ht
  · next hpc => exact .of_turn hpc (.fails _ _ rfl)
  · next hpc => exact .of_turn hpc (.fails _ _ rfl)
  refine .of_turn rfl (.ends _ ?_)
  cases hpc : s.calls c with
  | checking | writing | holding => grind
  | _ => rfl

end ObjectStore

end ThreeTears
