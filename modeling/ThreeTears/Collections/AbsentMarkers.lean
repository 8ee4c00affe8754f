import ThreeTears.Collections.Generation
import ThreeTears.Lib.KvKey
import ThreeTears.Lib.StepSystem

/-!
# Recorded absences

A process's L1 keeps a marker for a key that no tier holds. A read learns the table's write
generation before it asks any tier; a marker answers only under the generation that its own read had
learnt. A writer advances the generation, a key of the epoch bucket, after its commit; a bucket that
was emptied gets a new incarnation.
-/

namespace ThreeTears

variable {K π Λ ι : Type*}

/-- A row of the marker table; `readAt` is when the L3 read ran that found nothing. -/
structure AbsentMarker where
  generation : Text
  deadline : ℕ
  readAt : ℕ
deriving DecidableEq

structure AdvancedWrite (K : Type*) where
  key : K
  committedAt : ℕ
  advancedAt : ℕ
deriving DecidableEq

/-- An absence answered from a marker: when the read learnt the generation, and when the marker's
own read of L3 ran. -/
structure AbsenceAnswer (K : Type*) where
  key : K
  learnedAt : ℕ
  readAt : ℕ
deriving DecidableEq

structure MarkerConfig (π Λ : Type*) where
  l1 : π → Λ
  maxAge : ℕ
  maxEntries : ℕ

/-- Where a call is: a read by collection `p`, or a writer. -/
inductive MarkerPc (K π : Type*)
  | idle
  /-- `EpochGenerationSource.current` -/
  | learning (p : π) (k : K)
  | seeding (p : π) (k : K)
  | relearning (p : π) (k : K)
  | checking (p : π) (k : K) (generation : Text) (learnedAt : ℕ)
  /-- the lookup of L2 and then of L3 -/
  | fetching (p : π) (k : K) (generation : Option Text)
  | recording (p : π) (k : K) (generation : Text) (readAt : ℕ)
  /-- `EpochGenerationSource.advance`, after the commit -/
  | committed (k : K) (committedAt : ℕ)
  | advancing (k : K) (committedAt : ℕ) (entry : Option (Text × ℕ))

/-- L3's live rows, the table's generation, the incarnations minted for it, each L1's markers, each
collection's `_marker_generation`, and the calls. -/
structure MarkerRun (K π Λ ι : Type*) where
  rows : K → Bool
  generation : KvKey Text
  minted : List Text
  markers : Λ → Dict K AbsentMarker
  seen : π → Option Text
  calls : ι → MarkerPc K π
  clock : ℕ
  writes : List (AdvancedWrite K)
  answers : List (AbsenceAnswer K)

inductive MarkerEvent (K π Λ ι : Type*)
  | read (c : ι) (p : π) (k : K)
  /-- the generation is read, or found missing -/
  | learn (c : ι)
  /-- a first generation is created with a new incarnation -/
  | seed (c : ι) (incarnation : Text)
  | unlearned (c : ι)
  | check (c : ι) (now : ℕ)
  /-- a tier holds a live row -/
  | found (c : ι)
  /-- L3 holds no live row, nor did L2 -/
  | missed (c : ι)
  | record (c : ι) (now : ℕ)
  /-- a row is committed to L3, or its deletion -/
  | commit (c : ι) (k : K) (live : Bool)
  | getEntry (c : ι)
  /-- the compare-and-swap of an advance, with the incarnation it mints when there is none -/
  | swap (c : ι) (incarnation : Text)
  | fail (c : ι)
  /-- a row of L3 expires -/
  | expire (k : K)
  /-- a marker leaves an L1: `_clear_l1_marker` after a write, or an eviction -/
  | clear (l : Λ) (k : K)
  /-- the epoch bucket takes a message for another key -/
  | foreign
  /-- the epoch bucket is emptied -/
  | emptied

namespace MarkerRun

def start (rows : K → Bool) : MarkerRun K π Λ ι where
  rows := rows
  generation := .empty
  minted := []
  markers _ := .empty
  seen _ := none
  calls _ := .idle
  clock := 0
  writes := []
  answers := []

variable [DecidableEq K] [DecidableEq π] [DecidableEq Λ] [DecidableEq ι] (cfg : MarkerConfig π Λ)

def setCall (s : MarkerRun K π Λ ι) (c : ι) (pc : MarkerPc K π) : MarkerRun K π Λ ι :=
  { s with calls := Function.update s.calls c pc }

def setMarkers (s : MarkerRun K π Λ ι) (l : Λ) (markers : Dict K AbsentMarker) :
    MarkerRun K π Λ ι :=
  { s with markers := Function.update s.markers l markers }

def dead (markers : Dict K AbsentMarker) (generation : Text) : List K :=
  markers.keys.filter fun k => (markers.get k).any fun m => m.generation ≠ generation

/-- `_drop_markers_of_moved_generations`. -/
def dropMoved (s : MarkerRun K π Λ ι) (p : π) (generation : Text) : MarkerRun K π Λ ι :=
  if s.seen p = some generation then s
  else
    let markers := s.markers (cfg.l1 p)
    { s.setMarkers (cfg.l1 p) (markers.filter fun k => k ∉ dead markers generation) with
      seen := Function.update s.seen p (some generation) }

/-- `_l1_marker_matches`, with the marker that answers. -/
def markerMatches (s : MarkerRun K π Λ ι) (p : π) (k : K) (generation : Text) (now : ℕ) :
    MarkerRun K π Λ ι × Option AbsentMarker :=
  let s := s.dropMoved cfg p generation
  let markers := s.markers (cfg.l1 p)
  match markers.get k with
  | none => (s, none)
  | some m =>
    if m.generation = generation ∧ now < m.deadline then (s, some m)
    else (s.setMarkers (cfg.l1 p) (markers.erase k), none)

/-- `_hold_markers_to_the_cap`: the oldest past the cap go. -/
def holdToCap (markers : Dict K AbsentMarker) : Dict K AbsentMarker :=
  let oldest := markers.keys.take (markers.keys.length - cfg.maxEntries)
  markers.filter fun k => k ∉ oldest

/-- `_write_l1_marker`. -/
def writeMarker (s : MarkerRun K π Λ ι) (p : π) (k : K) (generation : Text) (readAt now : ℕ) :
    MarkerRun K π Λ ι :=
  let s := s.dropMoved cfg p generation
  s.setMarkers (cfg.l1 p)
    (holdToCap cfg ((s.markers (cfg.l1 p)).set k ⟨generation, now + cfg.maxAge, readAt⟩))

/-- What a read does with the value of the generation's key: one that is no token is not used, and
one whose count `int` refuses ends the read. -/
def learned (s : MarkerRun K π Λ ι) (p : π) (k : K) (token : Text) : MarkerPc K π :=
  match splitGenerationToken token with
  | .ok (some _) => .checking p k token s.clock
  | .ok none => .fetching p k none
  | .error _ => .idle

def Mints (s : MarkerRun K π Λ ι) (incarnation : Text) : Prop :=
  incarnation ≠ [] ∧ incarnation ∉ s.minted
deriving Decidable

def moved (s : MarkerRun K π Λ ι) (generation : KvKey Text) (c : ι) (pc : MarkerPc K π) :
    MarkerRun K π Λ ι :=
  { s.setCall c pc with generation := generation }

/-- `EpochGenerationSource.current` finds no generation and creates the first one. -/
def seed (s : MarkerRun K π Λ ι) (c : ι) (p : π) (k : K) (incarnation : Text) : MarkerRun K π Λ ι :=
  let t := { s with minted := incarnation :: s.minted }
  match s.generation.create (generationToken incarnation 0) with
  | some generation => t.moved generation c (.checking p k (generationToken incarnation 0) s.clock)
  | none => t.setCall c (.relearning p k)

def advanced (s : MarkerRun K π Λ ι) (generation : KvKey Text) (c : ι) (k : K)
    (committedAt : ℕ) : MarkerRun K π Λ ι :=
  { s.moved generation c .idle with writes := s.writes ++ [⟨k, committedAt, s.clock⟩] }

/-- One round of `EpochGenerationSource.advance` that found this entry; a lost round is tried again.
-/
def swap (s : MarkerRun K π Λ ι) (c : ι) (k : K) (committedAt : ℕ) (incarnation : Text) :
    Option (Text × ℕ) → Option (MarkerRun K π Λ ι)
  | none =>
    if s.Mints incarnation then
      let t := { s with minted := incarnation :: s.minted }
      match s.generation.create (generationToken incarnation 1) with
      | some generation => some (t.advanced generation c k committedAt)
      | none => some (t.setCall c (.committed k committedAt))
    else none
  | some (raw, revision) =>
    match splitGenerationToken raw with
    | .ok none | .error _ => some (s.setCall c .idle)
    | .ok (some (current, count)) =>
      match s.generation.update (generationToken current (count + 1)) revision with
      | some generation => some (s.advanced generation c k committedAt)
      | none => some (s.setCall c (.committed k committedAt))

def act (s : MarkerRun K π Λ ι) : MarkerEvent K π Λ ι → Option (MarkerRun K π Λ ι)
  | .read c p k =>
    match s.calls c with
    | .idle => some (s.setCall c (.learning p k))
    | _ => none
  | .learn c =>
    match s.calls c, s.generation.value with
    | .learning p k, some token => some (s.setCall c (s.learned p k token))
    | .learning p k, none => some (s.setCall c (.seeding p k))
    | .relearning p k, some token => some (s.setCall c (s.learned p k token))
    | .relearning p k, none => some (s.setCall c (.fetching p k none))
    | _, _ => none
  | .seed c incarnation =>
    match s.calls c with
    | .seeding p k => if s.Mints incarnation then some (s.seed c p k incarnation) else none
    | _ => none
  | .unlearned c =>
    match s.calls c with
    | .learning p k | .seeding p k | .relearning p k => some (s.setCall c (.fetching p k none))
    | _ => none
  | .check c now =>
    match s.calls c with
    | .checking p k generation learnedAt =>
      match s.markerMatches cfg p k generation now with
      | (t, some m) =>
        some { t.setCall c .idle with answers := s.answers ++ [⟨k, learnedAt, m.readAt⟩] }
      | (t, none) => some (t.setCall c (.fetching p k (some generation)))
    | _ => none
  | .found c =>
    match s.calls c with
    | .fetching _ _ _ => some (s.setCall c .idle)
    | _ => none
  | .missed c =>
    match s.calls c with
    | .fetching p k generation =>
      if s.rows k = false then
        match generation with
        | some generation => some (s.setCall c (.recording p k generation s.clock))
        | none => some (s.setCall c .idle)
      else none
    | _ => none
  | .record c now =>
    match s.calls c with
    | .recording p k generation readAt =>
      some ((s.writeMarker cfg p k generation readAt now).setCall c .idle)
    | _ => none
  | .commit c k live =>
    match s.calls c with
    | .idle =>
      some ({ s with rows := Function.update s.rows k live }.setCall c (.committed k s.clock))
    | _ => none
  | .getEntry c =>
    match s.calls c with
    | .committed k committedAt =>
      some (s.setCall c (.advancing k committedAt s.generation.getEntry))
    | _ => none
  | .swap c incarnation =>
    match s.calls c with
    | .advancing k committedAt entry => s.swap c k committedAt incarnation entry
    | _ => none
  | .fail c => some (s.setCall c .idle)
  | .expire k => some { s with rows := Function.update s.rows k false }
  | .clear l k => some (s.setMarkers l ((s.markers l).erase k))
  | .foreign => some { s with generation := s.generation.foreign }
  | .emptied => some { s with generation := s.generation.lapse }

def step (s : MarkerRun K π Λ ι) (e : MarkerEvent K π Λ ι) : Option (MarkerRun K π Λ ι) :=
  (s.act cfg e).map fun t => { t with clock := s.clock + 1 }

def system : StepSystem (MarkerRun K π Λ ι) (MarkerEvent K π Λ ι) := ⟨step cfg⟩

end MarkerRun

end ThreeTears
