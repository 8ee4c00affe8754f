import ThreeTears.Lib.Families
import ThreeTears.Lib.KvKey
import ThreeTears.Lib.StepSystem
import ThreeTears.Lib.TokenAccount

/-!
# The token bucket

`TokenBucket` keeps the tokens of a key and the time they are as of in one entry. A claim and a
refund read their clock, then the entry, refill it for the time passed and swap it. The time written
is the call's reading, so a slow call sets the clock of the entry back.
-/

namespace ThreeTears

open TokenAccount

variable {ι : Type*}

structure TokenBucket where
  refillRate : Rat
  capacity : Rat
  refillRate_pos : 0 < refillRate
  capacity_pos : 0 < capacity

structure BucketState where
  tokens : Rat
  lastRefill : Rat

inductive TokenOp
  | claim (tokens : Rat)
  | refund (grant : Nat) (tokens : Rat)

inductive TokenPc
  | idle
  | waiting (op : TokenOp)
  | timed (op : TokenOp) (now : Rat)
  | swapping (op : TokenOp) (now : Rat) (revision : Option Nat) (new : BucketState)

def TokenOp.refused : TokenOp → TokenPc
  | .claim tokens => .waiting (.claim tokens)
  | .refund _ _ => .idle

namespace TokenBucket

variable (bucket : TokenBucket)

def currentTokens (now : Rat) : Option BucketState → Rat
  | none => bucket.capacity
  | some state =>
    let elapsed := max 0 (now - state.lastRefill)
    min bucket.capacity (state.tokens + elapsed * bucket.refillRate)

/-- `_attempt`: what a call would write over the entry it has read. -/
def attempt (now : Rat) (entry : Option BucketState) : TokenOp → Option BucketState
  | .claim tokens =>
    let current := bucket.currentTokens now entry
    if current < tokens then none else some ⟨current - tokens, now⟩
  | .refund _ tokens =>
    match entry with
    | none => none
    | some state => some ⟨min bucket.capacity (bucket.currentTokens now (some state) + tokens), now⟩

end TokenBucket

/-- The clock, the key's entry and the calls, with the grants made so far, oldest first, and those
that a refund was called for. -/
structure TokenRun (ι : Type*) where
  now : Rat
  kv : KvKey BucketState
  calls : ι → TokenPc
  grants : List (Grant Rat)
  refunding : List Nat

inductive TokenAct (ι : Type*)
  | tick (time : Rat)
  | otherKey
  | claim (i : ι) (tokens : Rat)
  | refund (i : ι) (grant : Nat)
  | readClock (i : ι)
  | getEntry (i : ι)
  | swap (i : ι)
  | leave (i : ι)

namespace TokenRun

variable [DecidableEq ι] (bucket : TokenBucket)

def goto (s : TokenRun ι) (i : ι) (pc : TokenPc) : TokenRun ι :=
  { s with calls := Function.update s.calls i pc }

def moved (s : TokenRun ι) (now : Rat) : TokenOp → List (Grant Rat)
  | .claim tokens => s.grants ++ [⟨tokens, now, s.now, none⟩]
  | .refund grant _ => s.grants.modify grant fun g => { g with refund := some (now, s.now) }

def step (s : TokenRun ι) : TokenAct ι → Option (TokenRun ι)
  | .tick time => if 0 ≤ time then some { s with now := s.now + time } else none
  | .otherKey => some { s with kv := s.kv.foreign }
  | .claim i tokens =>
    match s.calls i with
    | .idle => if tokens ≤ bucket.capacity then some (s.goto i (.waiting (.claim tokens))) else none
    | _ => none
  | .refund i grant =>
    match s.calls i, s.grants[grant]? with
    | .idle, some g =>
      -- a refund is called once for a grant, and does nothing when there is nothing to give back
      if 0 < g.amount ∧ grant ∉ s.refunding then
        some ({ s with refunding := grant :: s.refunding }.goto i
          (.waiting (.refund grant g.amount)))
      else none
    | _, _ => none
  | .readClock i =>
    match s.calls i with
    | .waiting op => some (s.goto i (.timed op s.now))
    | _ => none
  | .getEntry i =>
    match s.calls i with
    | .timed op now =>
      match bucket.attempt now s.kv.value op with
      | some new => some (s.goto i (.swapping op now (s.kv.getEntry.map Prod.snd) new))
      | none => some (s.goto i op.refused)
    | _ => none
  | .swap i =>
    match s.calls i with
    | .swapping op now revision new =>
      match s.kv.swap new revision with
      | some kv => some ({ s with kv := kv, grants := s.moved now op }.goto i .idle)
      | none => some (s.goto i (.waiting op))
    | _ => none
  | .leave i => some (s.goto i .idle)

def system : StepSystem (TokenRun ι) (TokenAct ι) := ⟨step bucket⟩

def start (now : Rat) : TokenRun ι where
  now := now
  kv := .empty
  calls _ := .idle
  grants := []
  refunding := []

end TokenRun

end ThreeTears
