import Mathlib.Order.Lattice
import ThreeTears.Lib.Lists
import ThreeTears.Lib.StepSystem

/-!
# The credit of a pipe

A sender waits while its next chunk does not fit the window beside what is not acknowledged. The
receiver acknowledges when it has consumed half a window, so just under half of it may stay open.
-/

namespace ThreeTears

open List StepSystem

/-- The limits that `PipeEndpoint` accepts. -/
structure PipeEndpoint where
  maxChunk : Nat
  credit : Nat
  positive : 0 < maxChunk
  fits : maxChunk ≤ credit

/-- Both ends of one direction, and the frames between them in order. A data frame is its sequence
and its size. -/
structure PipeRun where
  /-- the chunks of the send in progress that are not emitted -/
  sending : List Nat
  sendSeq : Nat
  unacked : List (Nat × Nat)
  data : List (Nat × Nat)
  inbox : List (Nat × Nat)
  consumedSinceAck : Nat
  /-- the credit frames, by the sequence they acknowledge through -/
  credits : List Nat
  faulted : Bool
  deriving DecidableEq

inductive PipeAct
  | send (size : Nat)
  | emit
  | deliver
  | receive
  | applyCredit

namespace PipeRun

variable {e : PipeEndpoint} {s s' : PipeRun} {a : PipeAct}

def bytes (frames : List (Nat × Nat)) : Nat := (frames.map Prod.snd).sum

def chunks (e : PipeEndpoint) (size : Nat) : List Nat :=
  replicate (size / e.maxChunk) e.maxChunk ++
    if size % e.maxChunk = 0 then [] else [size % e.maxChunk]

def step (e : PipeEndpoint) (s : PipeRun) : PipeAct → Option PipeRun
  | .send size => if s.sending = [] then some { s with sending := chunks e size } else none
  | .emit =>
    match s.sending with
    | size :: rest =>
      if bytes s.unacked + size ≤ e.credit then
        some { s with
          sending := rest
          sendSeq := s.sendSeq + 1
          unacked := s.unacked ++ [(s.sendSeq + 1, size)]
          data := s.data ++ [(s.sendSeq + 1, size)] }
      else none
    | [] => none
  | .deliver =>
    match s.data with
    | frame :: rest =>
      if bytes s.inbox + frame.2 ≤ e.credit then
        some { s with data := rest, inbox := s.inbox ++ [frame] }
      else some { s with data := rest, faulted := true }
    | [] => none
  | .receive =>
    match s.inbox with
    | frame :: rest =>
      if e.credit ≤ (s.consumedSinceAck + frame.2) * 2 then
        some { s with inbox := rest, consumedSinceAck := 0, credits := s.credits ++ [frame.1] }
      else some { s with inbox := rest, consumedSinceAck := s.consumedSinceAck + frame.2 }
    | [] => none
  | .applyCredit =>
    match s.credits with
    | through :: rest =>
      some { s with unacked := s.unacked.dropWhile (·.1 ≤ through), credits := rest }
    | [] => none

def system (e : PipeEndpoint) : StepSystem PipeRun PipeAct := ⟨step e⟩

def start : PipeRun := ⟨[], 0, [], [], [], 0, [], false⟩

/-- The sender waits for credit, and nothing is on its way that could bring it. -/
def Wedged (e : PipeEndpoint) (s : PipeRun) : Prop :=
  (∃ size ∈ s.sending.head?, e.credit < bytes s.unacked + size) ∧ s.faulted = false ∧
    s.data = [] ∧ s.credits = [] ∧ s.inbox = []

/-- What is not acknowledged: what a credit frame in flight covers, what was consumed since, and
what is still to be consumed. -/
structure Tracked (e : PipeEndpoint) (s : PipeRun) (covered consumed : List (Nat × Nat)) :
    Prop where
  unacked : s.unacked = covered ++ (consumed ++ (s.inbox ++ s.data))
  sorted : s.unacked.Pairwise (·.1 < ·.1)
  sent : ∀ f ∈ s.unacked, f.1 ≤ s.sendSeq
  acked : ∀ c ∈ s.credits, c ≤ s.sendSeq ∧ ∀ f ∈ consumed ++ (s.inbox ++ s.data), c < f.1
  covers : ∀ f ∈ covered, ∃ c ∈ s.credits, f.1 ≤ c
  consumed : bytes consumed = s.consumedSinceAck
  half : s.consumedSinceAck ≤ (e.credit - 1) / 2
  window : bytes s.unacked ≤ e.credit
  sending : ∀ size ∈ s.sending, size ≤ e.maxChunk
  sound : s.faulted = false

lemma le_of_mem_chunks {size n : Nat} (h : n ∈ chunks e size) : n ≤ e.maxChunk := by
  obtain h | h := mem_append.1 h
  · exact (eq_of_mem_replicate h).le
  split_ifs at h
  · cases h
  obtain rfl := mem_singleton.1 h
  exact (Nat.mod_lt _ e.positive).le

lemma bytes_append (l l' : List (Nat × Nat)) : bytes (l ++ l') = bytes l + bytes l' := by
  simp [bytes]

variable {covered consumed : List (Nat × Nat)}

lemma Tracked.emit (h : s.Tracked e covered consumed) (ht : s.step e .emit = some s') :
    ∃ covered consumed, s'.Tracked e covered consumed := by
  have hu := h.unacked
  simp only [PipeRun.step] at ht
  split at ht
  · next he =>
    split_ifs at ht with hfi
    cases ht
    have hnew : ∀ f ∈ s.unacked, f.1 < s.sendSeq + 1 :=
      fun f hf => Nat.lt_succ_of_le (h.sent f hf)
    exact ⟨covered, consumed, { h with
      unacked := by simp [hu]
      sorted := pairwise_append.2 ⟨h.sorted, pairwise_singleton _ _, by simpa using hnew⟩
      sent := by grind
      acked := by
        have := h.acked
        grind
      window := by simpa [bytes_append, bytes] using hfi
      sending := fun n hn => h.sending n (he ▸ mem_cons_of_mem _ hn) }⟩
  · cases ht

lemma Tracked.receive (h : s.Tracked e covered consumed) (ht : s.step e .receive = some s') :
    ∃ covered consumed, s'.Tracked e covered consumed := by
  have hu := h.unacked
  simp only [PipeRun.step] at ht
  split at ht
  · next frame _ hi =>
    have hso := h.sorted
    rw [hu, hi, cons_append] at hso
    obtain ⟨-, hso, hl⟩ := pairwise_append.1 hso
    obtain ⟨-, haf, hbe⟩ := pairwise_append.1 hso
    have hb : bytes (consumed ++ [frame]) = s.consumedSinceAck + frame.2 := by
      rw [bytes_append, h.consumed]
      simp [bytes]
    split_ifs at ht with hac <;> cases ht
    · refine ⟨covered ++ (consumed ++ [frame]), [], { h with
        unacked := by simp [hu, hi]
        acked := ?_
        covers := ?_
        consumed := rfl
        half := Nat.zero_le _ }⟩
      · intro c hc
        obtain hc | hc := mem_append.1 hc
        · exact (h.acked c hc).imp_right fun hlt f hf =>
            hlt f (mem_append_right _ (hi ▸ mem_cons_of_mem _ hf))
        obtain rfl := mem_singleton.1 hc
        exact ⟨h.sent frame (by simp [hu, hi]), (pairwise_cons.1 haf).1⟩
      intro f hf
      obtain hf | hf := mem_append.1 hf
      · exact (h.covers f hf).imp fun c => And.imp_left (mem_append_left _)
      refine ⟨frame.1, by simp, ?_⟩
      obtain hf | hf := mem_append.1 hf
      · exact (hbe f hf frame mem_cons_self).le
      · exact (congrArg _ (mem_singleton.1 hf)).le
    exact ⟨covered, consumed ++ [frame], { h with
      unacked := by simp [hu, hi]
      acked := by simpa [hi] using h.acked
      consumed := hb
      half := by simp only; omega }⟩
  · cases ht

lemma Tracked.applyCredit (h : s.Tracked e covered consumed)
    (ht : s.step e .applyCredit = some s') : ∃ covered consumed, s'.Tracked e covered consumed := by
  have hu := h.unacked
  simp only [PipeRun.step] at ht
  split at ht
  · next through _ hr =>
    cases ht
    have ho : (consumed ++ (s.inbox ++ s.data)).filter (through < ·.1) = _ :=
      filter_eq_self.2 fun f hf =>
        decide_eq_true ((h.acked through (hr ▸ mem_cons_self)).2 f hf)
    have hdo : s.unacked.dropWhile (·.1 ≤ through) = s.unacked.filter (through < ·.1) := by
      rw [dropWhile_eq_filter_not (h.sorted.imp (by simp; omega))]
      exact filter_congr fun f _ => by grind
    obtain ⟨dropped, hdr⟩ := dropWhile_suffix (l := s.unacked) (·.1 ≤ through)
    have hk : ∀ f ∈ s.unacked.dropWhile (·.1 ≤ through), f ∈ s.unacked :=
      fun f => (dropWhile_suffix _).mem
    exact ⟨covered.filter (through < ·.1), consumed, { h with
      unacked := by rw [hdo, hu, filter_append, ho]
      sorted := h.sorted.sublist (dropWhile_suffix _).sublist
      sent := fun f hf => h.sent f (hk f hf)
      acked := fun c hc => h.acked c (hr ▸ mem_cons_of_mem _ hc)
      covers := by
        intro f hf
        obtain ⟨hf, hlt⟩ := mem_filter.1 hf
        obtain ⟨c, hc, hle⟩ := h.covers f hf
        obtain rfl | hc := mem_cons.1 (hr ▸ hc)
        · exact absurd hle (not_le.2 (of_decide_eq_true hlt))
        · exact ⟨c, hc, hle⟩
      window := by
        have := h.window
        rw [← hdr, bytes_append] at this
        exact (Nat.le_add_left _ _).trans this }⟩
  · cases ht

lemma Tracked.step (h : s.Tracked e covered consumed) (ht : s.step e a = some s') :
    ∃ covered consumed, s'.Tracked e covered consumed := by
  have hu := h.unacked
  cases a with simp only [PipeRun.step] at ht
  | send =>
    split_ifs at ht
    cases ht
    exact ⟨covered, consumed, { h with sending := fun n => le_of_mem_chunks }⟩
  | emit => exact h.emit ht
  | deliver =>
    split at ht
    · next hd =>
      have hfi := h.window
      rw [hu, hd, bytes_append, bytes_append, bytes_append] at hfi
      rw [if_pos (by simp only [bytes, map_cons, sum_cons] at hfi ⊢; omega)] at ht
      cases ht
      exact ⟨covered, consumed, { h with
        unacked := by simp [hu, hd]
        acked := by simpa [hd] using h.acked }⟩
    · cases ht
  | receive => exact h.receive ht
  | applyCredit => exact h.applyCredit ht

lemma tracked_run {as : List PipeAct} (hr : (system e).run start as = some s) :
    ∃ covered consumed, s.Tracked e covered consumed :=
  (system e).run_invariant (I := fun s => ∃ covered consumed, s.Tracked e covered consumed)
    (fun s a s' ⟨_, _, h⟩ ht => h.step ht)
    ⟨[], [], rfl, .nil, by simp [start], by simp [start], by simp, rfl, Nat.zero_le _,
      Nat.zero_le _, by simp [start], rfl⟩ hr

/-- No run wedges the pipe exactly if a whole chunk fits beside the most that the receiver may leave
unacknowledged. -/
theorem never_wedged_iff : (∀ as s, (system e).run start as = some s → ¬s.Wedged e) ↔
      e.maxChunk + (e.credit - 1) / 2 ≤ e.credit := by
  constructor
  · intro h
    by_contra! hlt
    have hfi := e.fits
    -- half a window less one byte, consumed and not acknowledged, then a whole chunk
    let part := (e.credit - 1) / 2
    have hpa : 0 < part ∧ part < e.maxChunk ∧ part * 2 < e.credit := by
      simp only [part]
      omega
    refine h [.send part, .emit, .deliver, .receive, .send e.maxChunk]
      ⟨[e.maxChunk], 1, [(1, part)], [], [], part, [], false⟩ ?_ ?_
    · have hh : chunks e part = [part] := by
        simp [chunks, Nat.div_eq_of_lt hpa.2.1, Nat.mod_eq_of_lt hpa.2.1, hpa.1.ne']
      have hu : chunks e e.maxChunk = [e.maxChunk] := by
        simp [chunks, Nat.div_self e.positive]
      have hle : part ≤ e.credit := by omega
      simp [run, system, step, start, bytes, hh, hu, hle, not_le.2 hpa.2.2]
    simp only [Wedged, bytes, part]
    simp
    omega
  rintro h as s hr ⟨⟨size, hsi, hlt⟩, -, hd, hcr, hi⟩
  obtain ⟨covered, consumed, ht⟩ := tracked_run hr
  have ho : covered = [] := by
    refine eq_nil_iff_forall_not_mem.2 fun f hf => ?_
    obtain ⟨c, hc, -⟩ := ht.covers f hf
    simp [hcr] at hc
  have hb : bytes s.unacked = s.consumedSinceAck := by
    rw [ht.unacked, ho, hi, hd, nil_append, append_nil, append_nil, ht.consumed]
  have := ht.sending size (mem_of_mem_head? hsi)
  have := ht.half
  omega

/-- With a window of one chunk, four bytes consumed and not acknowledged leave no room for a chunk
of seven, and no credit will come. -/
theorem wedged_after_four : ∃ s, (system ⟨10, 10, by decide, le_rfl⟩).run start
      [.send 4, .emit, .deliver, .receive, .send 7] = some s ∧
        s.Wedged ⟨10, 10, by decide, le_rfl⟩ :=
  ⟨_, rfl, by simp [Wedged, start, chunks, bytes]⟩

/-- The receiver is never overrun: what it holds and what is on its way to it fit the window
together, and come in the order in which they were sent. -/
theorem never_overrun {as : List PipeAct} (hrun : (system e).run start as = some s) :
    s.faulted = false ∧ bytes (s.inbox ++ s.data) ≤ e.credit ∧
      (s.inbox ++ s.data).Pairwise (·.1 < ·.1) ∧ s.inbox ++ s.data <:+ s.unacked := by
  obtain ⟨covered, consumed, h⟩ := tracked_run hrun
  have hsuffix : s.inbox ++ s.data <:+ s.unacked := ⟨covered ++ consumed, by simp [h.unacked]⟩
  refine ⟨h.sound, ?_, h.sorted.sublist hsuffix.sublist, hsuffix⟩
  have hwindow := h.window
  rw [h.unacked, bytes_append, bytes_append] at hwindow
  omega

theorem never_overrun_window : ∃ s, (system ⟨4, 10, by decide, by decide⟩).run start
      [.send 9, .emit, .emit, .deliver, .emit, .receive, .deliver] = some s ∧
        s.inbox ++ s.data = [(2, 4), (3, 1)] ∧ bytes (s.inbox ++ s.data) ≤ 10 := by
  refine exists_run_and _ ?_ fun s hr _ => (never_overrun hr).2.1
  decide

end PipeRun

end ThreeTears
