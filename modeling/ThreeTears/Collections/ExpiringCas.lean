import ThreeTears.Collections.CasSteps

/-!
# Compare-and-swap mutations of a row that expires

The calls of `l2_cas_mutate` on a table with an expiry column. Every tier takes a row whose expiry
has passed for absent: L2 drops it, a sweep deletes it from L3, and a call that finds one goes on as
if there were none. L2 counts a lifetime in whole seconds, so that it may drop a row that has up to
a second to live.
-/

namespace ThreeTears

open Function Option

variable {O V P ι : Type*}

/-- A table, and the callbacks its callers pass for an operation and the time they read. -/
structure CasTable (O V : Type*) where
  expiresAt : V → Int
  mutate : O → Int → Option V → Option V
  defersL3Writes : Bool

def CasTable.RowIsExpired (table : CasTable O V) (now : Int) (row : CasRow V) : Prop :=
  table.expiresAt row.value ≤ now
deriving Decidable

/-- A second in the microseconds of a row's expiry. -/
def CasTable.second : Int := 1000000

/-- `_l2_entry_lifetime`: what is left of the row's life, and a second at least. -/
def CasTable.l2EntryLifetime (table : CasTable O V) (now : Int) (row : CasRow V) : Int :=
  max (table.expiresAt row.value - now) second

/-- `_msg_ttl_seconds`: the header of an entry carries whole seconds. -/
def CasTable.msgTtlSeconds (lifetime : Int) : Int := lifetime / second

/-- The row has less than a second to live, so that the entry it was written to may have gone. -/
def CasTable.MayLapse (table : CasTable O V) (now : Int) (row : CasRow V) : Prop :=
  table.expiresAt row.value - second < now
deriving Decidable

lemma CasTable.mayLapse_of_ttl {table : CasTable O V} {written now : Int} {row : CasRow V}
    (h : written + msgTtlSeconds (table.l2EntryLifetime written row) * second ≤ now) :
    table.MayLapse now row := by
  simp only [msgTtlSeconds, l2EntryLifetime, MayLapse, second] at h ⊢
  omega

def CasTable.isLive (table : CasTable O V) (now : Int) (row : Option (CasRow V)) : Bool :=
  row.any fun row => ¬ table.RowIsExpired now row

structure CasRequest (O V : Type*) where
  op : O
  clock : Int
  seen : List (O × Option V)

/-- The calls with what each was made for, and the answers so far, newest first: the value written,
or none for a noop. -/
structure ExpiringRun (O V P ι : Type*) where
  now : Int
  cas : CasRun V P ι
  requests : ι → Option (CasRequest O V)
  answers : List (O × Option V)

inductive ExpiringAct (O V P ι : Type*)
  | tick (time : Nat)
  | sweep
  | lapse
  | begin (i : ι) (op : O) (epoch : Nat)
  | call (i : ι) (a : CallAct V P)
  | flush (p : P) (f : ι) (a : CasFlushAct)
  | recreate (epoch : Nat)
  | otherKey

def CasPc.answer (l3 : Option (CasRow V)) : CasPc V → CallAct V P → Option (Option V)
  | .mutating _ _ _, .mutate none => some none
  | .persisting row _, .defer _ => some (some row.value)
  | .confirming row _, .confirm => if confirmsSuperseded l3 row then some (some row.value) else none
  | .bumping row _, .finish true => some (some row.value)
  | _, _ => none

namespace ExpiringRun

variable (table : CasTable O V)

def callback (s : ExpiringRun O V P ι) (i : ι) : Option V :=
  match s.requests i, s.cas.calls i with
  | some request, .mutating _ _ row => table.mutate request.op request.clock (row.map CasRow.value)
  | _, _ => none

variable {table} in
lemma callback_eq {s : ExpiringRun O V P ι} {i : ι} {req : CasRequest O V} {epoch : Nat}
    {rev : Option Nat} {row : Option (CasRow V)} (hr : s.requests i = some req)
    (hpc : s.cas.calls i = .mutating epoch rev row) :
    s.callback table i = table.mutate req.op req.clock (row.map CasRow.value) := by
  simp [callback, hr, hpc]

/-- The step is told what the tiers hold and what the callback answers. -/
def Follows (s : ExpiringRun O V P ι) (i : ι) : CallAct V P → Prop
  | .begin _ => False
  | .getEntry usable => usable = table.isLive s.now s.cas.tiers.kv.value
  | .fetchFromStore live => live = table.isLive s.now s.cas.tiers.l3
  | .mutate result => result = s.callback table i
  | .persist _ => table.defersL3Writes = false
  | .defer _ => table.defersL3Writes = true
  | _ => True

variable [DecidableEq V]

instance (s : ExpiringRun O V P ι) (i a) : Decidable (s.Follows table i a) := by
  unfold Follows
  split <;> infer_instance

variable [DecidableEq P] [DecidableEq ι]

def answered (s : ExpiringRun O V P ι) (i : ι) (a : CallAct V P) : List (O × Option V) :=
  match s.requests i, (s.cas.calls i).answer s.cas.tiers.l3 a with
  | some request, some answer => (request.op, answer) :: s.answers
  | _, _ => s.answers

def step (s : ExpiringRun O V P ι) : ExpiringAct O V P ι → Option (ExpiringRun O V P ι)
  | .tick time => some { s with now := s.now + time }
  | .sweep =>
    if ∃ row ∈ s.cas.tiers.l3, table.RowIsExpired s.now row then
      some { s with cas := { s.cas with tiers := { s.cas.tiers with l3 := none } } }
    else none
  | .lapse =>
    if ∃ row ∈ s.cas.tiers.kv.value, table.MayLapse s.now row then
      (s.cas.step .lapse).map fun cas => { s with cas := cas }
    else none
  | .begin i op epoch => (s.cas.step (.call i (.begin epoch))).map fun cas =>
      { s with
        cas := cas
        requests := update s.requests i (some ⟨op, s.now, s.answers⟩) }
  | .call i a =>
    if s.Follows table i a then
      (s.cas.step (.call i a)).map fun cas => { s with cas := cas, answers := s.answered i a }
    else none
  | .flush p f a => (s.cas.step (.flush p f a)).map fun cas => { s with cas := cas }
  | .recreate epoch => (s.cas.step (.recreate epoch)).map fun cas => { s with cas := cas }
  | .otherKey => (s.cas.step .otherKey).map fun cas => { s with cas := cas }

def system : StepSystem (ExpiringRun O V P ι) (ExpiringAct O V P ι) := ⟨step table⟩

def start (now : Int) (epoch : Nat) (l3 : Option (V × Option L2Order)) (durable : P → Bool) :
    ExpiringRun O V P ι where
  now := now
  cas := .start epoch l3 durable
  requests _ := none
  answers := []

inductive Moves (s : ExpiringRun O V P ι) : ExpiringAct O V P ι → ExpiringRun O V P ι → Prop
  | tick (time : Nat) : Moves s (.tick time) { s with now := s.now + time }
  | sweep (row : CasRow V) (hl3 : s.cas.tiers.l3 = some row)
      (hexpired : table.RowIsExpired s.now row) :
    Moves s .sweep { s with cas := { s.cas with tiers := { s.cas.tiers with l3 := none } } }
  | lapse (row : CasRow V) (hvalue : s.cas.tiers.kv.value = some row)
      (hlapse : table.MayLapse s.now row) :
    Moves s .lapse { s with
      cas := { s.cas with tiers := { s.cas.tiers with kv := s.cas.tiers.kv.lapse } } }
  | begin (i : ι) (op : O) (epoch : Nat) (hpc : s.cas.calls i = .idle)
      (hepoch : epoch = s.cas.tiers.epoch ∨ epoch ∈ s.cas.tiers.epochsRead) :
    Moves s (.begin i op epoch) { s with
      cas := { s.cas with
        tiers := { s.cas.tiers with epochsRead := epoch :: s.cas.tiers.epochsRead }
        calls := update s.cas.calls i (.reading epoch) }
      requests := update s.requests i (some ⟨op, s.now, s.answers⟩) }
  | call (i : ι) (a : CallAct V P) (tiers : CasTiers V P) (pc : CasPc V)
      (hfollows : s.Follows table i a)
      (hmoves : CallMoves s.cas.tiers (s.cas.calls i) a tiers pc) :
    Moves s (.call i a) { s with
      cas := { s.cas with tiers := tiers, calls := update s.cas.calls i pc }
      answers := s.answered i a }
  | flush (p : P) (f : ι) (a : CasFlushAct) (tiers : CasTiers V P) (fl : CasFlush V)
      (hmoves : FlushMoves s.cas.tiers p (s.cas.flushes p f) a tiers fl) :
    Moves s (.flush p f a) { s with
      cas := { s.cas with
        tiers := tiers
        flushes := update s.cas.flushes p (update (s.cas.flushes p) f fl) } }
  | recreate (epoch : Nat) (hlt : s.cas.tiers.epoch < epoch) :
    Moves s (.recreate epoch) { s with
      cas := { s.cas with tiers := { s.cas.tiers with epoch := epoch, kv := .empty } } }
  | otherKey : Moves s .otherKey { s with
      cas := { s.cas with tiers := { s.cas.tiers with kv := s.cas.tiers.kv.foreign } } }

variable {table} {s s' : ExpiringRun O V P ι} {a : ExpiringAct O V P ι}

theorem moves_of_step (ht : s.step table a = some s') : s.Moves table a s' := by
  cases a with try cases ht
  | tick time => exact .tick time
  | sweep =>
    simp only [step] at ht
    split_ifs at ht with h
    cases ht
    obtain ⟨row, hl3, hexpired⟩ := h
    exact .sweep row hl3 hexpired
  | lapse =>
    simp only [step] at ht
    split_ifs at ht with h
    cases ht
    obtain ⟨row, hvalue, hlapse⟩ := h
    exact .lapse row hvalue hlapse
  | begin i op epoch =>
    obtain ⟨cas, hc, rfl⟩ := map_eq_some_iff.1 ht
    obtain ⟨⟨tiers, pc⟩, hcall, rfl⟩ := map_eq_some_iff.1 hc
    have hm := callMoves_of_step hcall
    generalize hpc : s.cas.calls i = before at hm
    cases hm with
    | begin hepoch => exact .begin i op epoch hpc hepoch
  | call i a =>
    simp only [step, ite_none_right_eq_some] at ht
    obtain ⟨hfollows, ht⟩ := ht
    obtain ⟨cas, hc, rfl⟩ := map_eq_some_iff.1 ht
    obtain ⟨⟨tiers, pc⟩, hcall, rfl⟩ := map_eq_some_iff.1 hc
    exact .call i a tiers pc hfollows (callMoves_of_step hcall)
  | flush p f a =>
    obtain ⟨cas, hc, rfl⟩ := map_eq_some_iff.1 ht
    obtain ⟨⟨tiers, fl⟩, hl, rfl⟩ := map_eq_some_iff.1 hc
    exact .flush p f a tiers fl (flushMoves_of_step hl)
  | recreate epoch =>
    obtain ⟨cas, hc, rfl⟩ := map_eq_some_iff.1 ht
    simp only [CasRun.step] at hc
    split_ifs at hc with hlt
    cases hc
    exact .recreate epoch hlt
  | otherKey => exact .otherKey

end ExpiringRun

end ThreeTears
