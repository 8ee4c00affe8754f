import ThreeTears.Collections.FenceInvariant
import ThreeTears.Collections.TableDrops

/-!
# After a table drop nothing stale is served

What a process may use of L2 after its drops are the entries beyond the bucket's last revision at
the drop. As long as no call writes a row that L3 held only before the drop's cause, such an entry's
row is recent enough. A read that does not trust the entry asks L3, and trusts the key again once
the entry it looked at is gone.
-/

namespace ThreeTears

open Function List

variable {P Row ι : Type*}

def DropOp.toOp : DropOp P Row → Op P Unit
  | .idle => .idle
  | .pull p ticket _ _ => .read p ticket .start
  | .save p ticket _ _ => .save p (.begun () ticket)

namespace DropRun

def Dated (s : DropRun P Row ι) (x : DatedRow Row) : Prop := s.past[x.moment]? = some (some x.row)

def FreshFor (s : DropRun P Row ι) (d : TableDrop P) : Prop :=
  s.live ≠ none → d.sequence < s.l2.revision

/-- The row was in L3 at the cause, or later, of every drop of the process before the moment. -/
def Since (s : DropRun P Row ι) (p : P) (startedAt : ℕ) (x : DatedRow Row) : Prop :=
  s.Dated x ∧ ∀ d ∈ s.drops, d.process = p → d.moment < startedAt → d.cause ≤ x.moment

def After (s : DropRun P Row ι) (startedAt : ℕ) (x : DatedRow Row) : Prop :=
  s.Dated x ∧ startedAt ≤ x.moment

variable [DecidableEq P]

/-- What a look at L2 says later: an entry that has moved on since was written after the drops
before the read, and when no other drop landed, after all. -/
structure LookStands (s : DropRun P Row ι) (p : P) (startedAt : ℕ) (look : L2Look) : Prop where
  drops_le : look.drops ≤ s.tableDrops p
  moved : s.l2.revision ≠ look.revision →
    ∀ d ∈ s.drops, d.process = p → d.moment < startedAt → s.FreshFor d
  settled : look.drops = s.tableDrops p →
    look.untrusted = false ∨ s.l2.revision ≠ look.revision →
    ∀ d ∈ s.drops, d.process = p → s.FreshFor d

def PullStands (s : DropRun P Row ι) (p : P) (startedAt : ℕ) : PullPc Row → Prop
  | .begun => True
  | .judged drops distrust => drops ≤ s.tableDrops p ∧
      (distrust = false → ∀ d ∈ s.drops, d.process = p → d.moment < startedAt → s.FreshFor d)
  | .missed look => s.LookStands p startedAt look
  | .fetched look x => s.LookStands p startedAt look ∧ s.After startedAt x
  | .superseded look x => s.LookStands p startedAt look ∧ s.After startedAt x ∧
      ∀ d ∈ s.drops, d.process = p → d.moment < startedAt → s.FreshFor d
  | .absent look => s.LookStands p startedAt look
  | .found look x => (∀ l ∈ look, s.LookStands p startedAt l) ∧ s.Since p startedAt x
  | .settling look answer => s.LookStands p startedAt look ∧ ∀ x ∈ answer, s.Since p startedAt x
  | .probing look answer => s.LookStands p startedAt look ∧ ∀ x ∈ answer, s.Since p startedAt x
  | .ending answer => ∀ x ∈ answer, s.Since p startedAt x

omit [DecidableEq P] in
def SaveStands (s : DropRun P Row ι) (startedAt : ℕ) : CommitPc Row → Prop
  | .begun _ | .before _ _ | .cached => True
  | .committed x _ | .stored x _ | .refused x | .written x _ => s.After startedAt x

/-- A call whose ticket is still the newest began after the process's drops. -/
def Newer (s : DropRun P Row ι) (p : P) (ticket : KeyTicket) (startedAt : ℕ) : Prop :=
  s.newest p ticket = true → ∀ d ∈ s.drops, d.process = p → d.moment < startedAt

def Stands (s : DropRun P Row ι) : DropOp P Row → Prop
  | .idle => True
  | .pull p ticket startedAt pc =>
    startedAt < s.clock ∧ s.Newer p ticket startedAt ∧ s.PullStands p startedAt pc
  | .save p ticket startedAt pc =>
    startedAt < s.clock ∧ s.Newer p ticket startedAt ∧ s.SaveStands startedAt pc

structure Inv (s : DropRun P Row ι) : Prop where
  fence : FenceInv s.fence fun i => (s.ops i).toOp
  past : s.past.length = s.clock + 1
  present : s.past[s.clock]? = some s.l3
  drops : ∀ d ∈ s.drops, d.cause ≤ d.moment ∧ d.moment < s.clock ∧ d.sequence ≤ s.l2.sequence
  l2 : ∀ x ∈ s.l2.value, s.Dated x ∧
    ∀ d ∈ s.drops, d.sequence < s.l2.revision → d.cause ≤ x.moment
  l1 : ∀ p, ∀ x ∈ s.l1 p, s.Dated x ∧ ∀ d ∈ s.drops, d.process = p → d.cause ≤ x.moment
  trusted : ∀ p, s.trusted p = true → ∀ d ∈ s.drops, d.process = p → s.FreshFor d
  ops : ∀ i, s.Stands (s.ops i)
  answers : ∀ a ∈ s.answers, a.startedAt < s.clock ∧
    ∀ d ∈ s.drops, d.process = a.process → d.moment < a.startedAt →
      ∃ t, d.cause ≤ t ∧ s.past[t]? = some (some a.row)

lemma Inv.start (row : Option Row) : Inv (start row : DropRun P Row ι) where
  fence :=
    { holders := fun p => by simp [DropRun.start, DropOp.toOp, Op.holdsAt, Op.ticket]
      writers := fun p => by simp [DropRun.start, DropOp.toOp, Op.writesAt, Op.ticket]
      holds := fun i p t ht => nomatch ht
      rivals := fun i j p t _ ht => nomatch ht
      saves := fun i p t hs => nomatch hs }
  past := rfl
  present := rfl
  drops _ hd := nomatch hd
  l2 _ hx := nomatch hx
  l1 _ _ hx := nomatch hx
  trusted _ hp := nomatch hp
  ops _ := trivial
  answers _ ha := nomatch ha

variable {s t : DropRun P Row ι} {p : P} {startedAt : ℕ} {x : DatedRow Row} {look : L2Look}
  {d : TableDrop P} {op : DropOp P Row}

/-! ### What one step leaves -/

/-- A step later: L3's past is one moment longer, a new drop is of this moment, and the L2 entry is
the same, or gone, or new. -/
structure Later (s t : DropRun P Row ι) : Prop where
  past : ∃ row, t.past = s.past ++ [row]
  clock : t.clock = s.clock + 1
  drops : ∀ d ∈ t.drops, d ∈ s.drops ∨ d.moment = s.clock
  count_le : ∀ p, s.tableDrops p ≤ t.tableDrops p
  count_eq : ∀ p, t.tableDrops p ≤ s.tableDrops p → ∀ d ∈ t.drops, d.process = p → d ∈ s.drops
  l2 : t.l2.revision = s.l2.revision ∧ (t.live ≠ none → s.live ≠ none) ∨
    ∀ d ∈ s.drops, t.FreshFor d

namespace Later

section

variable (h : Later s t)
include h

lemma dated (hx : s.Dated x) : t.Dated x := by
  obtain ⟨row, hpa⟩ := h.past
  unfold Dated at hx ⊢
  rw [hpa, List.getElem?_append_left (List.getElem?_eq_some_iff.1 hx).1]
  exact hx

lemma after (hx : s.After startedAt x) : t.After startedAt x := ⟨h.dated hx.1, hx.2⟩

lemma freshFor (hd : d ∈ s.drops) (hr : s.FreshFor d) : t.FreshFor d := by
  rcases h.l2 with ⟨hrev, hlive⟩ | hl
  · intro ht
    rw [hrev]
    exact hr (hlive ht)
  · exact hl d hd

lemma freshFor_of_ne (hd : d ∈ s.drops) {rev : ℕ}
    (he : t.l2.revision ≠ rev) (hs : s.l2.revision ≠ rev → s.FreshFor d) : t.FreshFor d := by
  rcases h.l2 with ⟨hrev, -⟩ | hl
  · exact h.freshFor hd (hs (hrev ▸ he))
  · exact hl d hd

lemma mem_of_lt (hd : d ∈ t.drops) (hstart : startedAt < s.clock)
    (hlt : d.moment < startedAt) : d ∈ s.drops :=
  (h.drops d hd).resolve_right fun he => absurd (he ▸ hlt) (not_lt.2 hstart.le)

variable (hstart : startedAt < s.clock)
include hstart

lemma since (hx : s.Since p startedAt x) : t.Since p startedAt x :=
  ⟨h.dated hx.1, fun d hd hp hlt => hx.2 d (h.mem_of_lt hd hstart hlt) hp hlt⟩

lemma lookStands (hlook : s.LookStands p startedAt look) : t.LookStands p startedAt look where
  drops_le := hlook.drops_le.trans (h.count_le p)
  moved he d hd hp hlt := by
    have hd' := h.mem_of_lt hd hstart hlt
    exact h.freshFor_of_ne hd' he fun he => hlook.moved he d hd' hp hlt
  settled hq ho d hd hp := by
    have hle : t.tableDrops p ≤ s.tableDrops p := hq ▸ hlook.drops_le
    have hd' := h.count_eq p hle d hd hp
    have he' : look.drops = s.tableDrops p := hq.trans (hle.antisymm (h.count_le p))
    rcases ho with ht | he
    · exact h.freshFor hd' (hlook.settled he' (.inl ht) d hd' hp)
    · exact h.freshFor_of_ne hd' he fun he => hlook.settled he' (.inr he) d hd' hp

lemma pullStands {pc : PullPc Row}
    (hpc : s.PullStands p startedAt pc) : t.PullStands p startedAt pc := by
  have hr : (∀ d ∈ s.drops, d.process = p → d.moment < startedAt → s.FreshFor d) →
      ∀ d ∈ t.drops, d.process = p → d.moment < startedAt → t.FreshFor d := by
    intro hal d hd hp hlt
    have hd' := h.mem_of_lt hd hstart hlt
    exact h.freshFor hd' (hal d hd' hp hlt)
  cases pc with
  | begun => trivial
  | judged => exact ⟨hpc.1.trans (h.count_le p), fun hd => hr (hpc.2 hd)⟩
  | missed look | absent look => exact h.lookStands hstart hpc
  | fetched => exact ⟨h.lookStands hstart hpc.1, h.after hpc.2⟩
  | superseded => exact ⟨h.lookStands hstart hpc.1, h.after hpc.2.1, hr hpc.2.2⟩
  | found => exact ⟨fun l hl => h.lookStands hstart (hpc.1 l hl), h.since hstart hpc.2⟩
  | settling look ans | probing look ans =>
    exact ⟨h.lookStands hstart hpc.1, fun x hx => h.since hstart (hpc.2 x hx)⟩
  | ending => exact fun x hx => h.since hstart (hpc x hx)

omit hstart

lemma saveStands {pc : CommitPc Row} (hpc : s.SaveStands startedAt pc) :
    t.SaveStands startedAt pc := by
  cases pc with
  | begun | before | cached => trivial
  | committed | stored | refused | written => exact h.after hpc

lemma stands (hop : s.Stands op)
    (hnew : ∀ p ticket, op.toOp.ticket = some (p, ticket) → t.newest p ticket = true →
      s.newest p ticket = true ∧ ∀ d ∈ t.drops, d.process = p → d ∈ s.drops) : t.Stands op := by
  have hc : s.clock < t.clock := h.clock ▸ Nat.lt_succ_self _
  cases op with
  | idle => trivial
  | pull p ticket =>
    obtain ⟨hstart, he, hpc⟩ := hop
    refine ⟨hstart.trans hc, fun ht d hd hp => ?_, h.pullStands hstart hpc⟩
    obtain ⟨hs, hr⟩ := hnew p ticket rfl ht
    exact he hs d (hr d hd hp) hp
  | save p ticket =>
    obtain ⟨hstart, he, hpc⟩ := hop
    refine ⟨hstart.trans hc, fun ht d hd hp => ?_, h.saveStands hpc⟩
    obtain ⟨hs, hr⟩ := hnew p ticket rfl ht
    exact he hs d (hr d hd hp) hp

end

end Later

/-- What a step does to the L2 entry, while the drops are the same. -/
structure L2Later (s t : DropRun P Row ι) : Prop where
  entry : t.l2.revision = s.l2.revision ∧ (t.live ≠ none → s.live ≠ none) ∨
    ∀ d ∈ s.drops, t.FreshFor d
  sequence : s.l2.sequence ≤ t.l2.sequence
  value : ∀ x ∈ t.l2.value, x ∈ s.l2.value ∧ t.l2.revision = s.l2.revision ∨
    t.Dated x ∧ s.Recent x

omit [DecidableEq P] in
lemma L2Later.same (hl2 : t.l2 = s.l2) (hsp : t.spoiled = s.spoiled) : L2Later s t where
  entry := .inl ⟨by rw [hl2], by rw [live, live, hl2, hsp]; exact id⟩
  sequence := by rw [hl2]
  value x hx := .inl ⟨hl2 ▸ hx, by rw [hl2]⟩

omit [DecidableEq P] in
lemma L2Later.push {v : Option (DatedRow Row)} (hr : ∀ d ∈ s.drops, d.sequence ≤ s.l2.sequence)
    (hl2 : t.l2 = s.l2.push v) (hv : ∀ x ∈ v, t.Dated x ∧ s.Recent x) : L2Later s t where
  entry := .inr fun d hd _ => by
    rw [hl2, KvKey.push_revision]
    exact Nat.lt_succ_of_le (hr d hd)
  sequence := by
    rw [hl2]
    exact Nat.le_succ _
  value x hx := .inr (hv x (by rwa [hl2] at hx))

omit [DecidableEq P] in
lemma L2Later.lapse (hl2 : t.l2 = s.l2.lapse) : L2Later s t where
  entry := .inr fun d _ hlive => absurd (by simp [live, hl2]) hlive
  sequence := by
    rw [hl2]
    exact le_rfl
  value x hx := by
    rw [hl2] at hx
    cases hx

omit [DecidableEq P] in
lemma L2Later.foreign (hl2 : t.l2 = s.l2.foreign) (hsp : t.spoiled = s.spoiled) : L2Later s t where
  entry := .inl ⟨by rw [hl2]; rfl, by rw [live, live, hl2, hsp]; exact id⟩
  sequence := by
    rw [hl2]
    exact Nat.le_succ _
  value x hx := by
    rw [hl2] at hx ⊢
    exact .inl ⟨hx, rfl⟩

omit [DecidableEq P] in
lemma L2Later.spoil (hl2 : t.l2 = s.l2) (hsp : t.spoiled = s.l2.revision :: s.spoiled) :
    L2Later s t where
  entry := .inr fun d _ hlive => absurd (by simp [live, hl2, hsp]) hlive
  sequence := by rw [hl2]
  value x hx := .inl ⟨hl2 ▸ hx, by rw [hl2]⟩

lemma Inv.next (h : Inv s) (hc : t.clock = s.clock + 1) (hpa : t.past = s.past ++ [t.l3])
    (hdr : t.drops = s.drops) (hl2 : L2Later s t)
    (he : FenceInv t.fence fun i => (t.ops i).toOp) (hl1 : ∀ p, ∀ x ∈ t.l1 p, x ∈ s.l1 p ∨
      t.Dated x ∧ ∀ d ∈ s.drops, d.process = p → d.cause ≤ x.moment)
    (ht : ∀ p, t.trusted p = true → s.trusted p = true ∨
      ∀ d ∈ s.drops, d.process = p → t.FreshFor d) (ho : Later s t → ∀ i, t.Stands (t.ops i))
    (han : ∀ a ∈ t.answers, a ∈ s.answers ∨ a.startedAt < t.clock ∧
      ∀ d ∈ s.drops, d.process = a.process → d.moment < a.startedAt →
        ∃ m, d.cause ≤ m ∧ t.past[m]? = some (some a.row)) : Inv t := by
  have hco : ∀ p, t.tableDrops p = s.tableDrops p := fun p => by
    rw [tableDrops, tableDrops, hdr]
  have hl : Later s t :=
    ⟨⟨t.l3, hpa⟩, hc, fun d hd => .inl (hdr ▸ hd), fun p => (hco p).ge,
      fun p _ d hd _ => hdr ▸ hd, hl2.entry⟩
  have hlt : s.clock < t.clock := hc ▸ Nat.lt_succ_self _
  refine ⟨he, ?_, ?_, fun d hd => ?_, fun x hx => ?_, fun p x hx => ?_,
    fun p hp d hd hdp => ?_, ho hl, fun a ha => ?_⟩
  · rw [hpa, hc, length_append, h.past]
    rfl
  · rw [hpa, hc, ← h.past]
    simp
  · obtain ⟨hca, hmo, hse⟩ := h.drops d (hdr ▸ hd)
    exact ⟨hca, hmo.trans hlt, hse.trans hl2.sequence⟩
  · rw [hdr]
    rcases hl2.value x hx with ⟨hx, hrev⟩ | ⟨hda, hr⟩
    · rw [hrev]
      exact ⟨hl.dated (h.l2 x hx).1, (h.l2 x hx).2⟩
    · exact ⟨hda, fun d hd _ => hr d hd⟩
  · rw [hdr]
    rcases hl1 p x hx with hx | hx
    · exact ⟨hl.dated (h.l1 p x hx).1, (h.l1 p x hx).2⟩
    · exact hx
  · rw [hdr] at hd
    rcases ht p hp with hp | hal
    · exact hl.freshFor hd (h.trusted p hp d hd hdp)
    · exact hal d hd hdp
  rw [hdr]
  rcases han a ha with ha | ha
  · obtain ⟨hstart, hal⟩ := h.answers a ha
    refine ⟨hstart.trans hlt, fun d hd hp hmo => ?_⟩
    obtain ⟨m, hm, hrow⟩ := hal d hd hp hmo
    have hx : s.Dated ⟨a.row, m⟩ := hrow
    exact ⟨m, hm, hl.dated hx⟩
  · exact ha

variable {i : ι}

lemma stands_update [DecidableEq ι] (hl : Later s t) (h : Inv s) (hr : t.drops = s.drops)
    (ho : t.ops = update s.ops i op) (hop : t.Stands op)
    (hnew : ∀ j p ticket, (s.ops j).toOp.ticket = some (p, ticket) → t.newest p ticket = true →
      s.newest p ticket = true) : ∀ j, t.Stands (t.ops j) := by
  intro j
  rw [ho]
  rcases eq_or_ne j i with rfl | hj
  · rwa [update_self]
  rw [update_of_ne hj]
  exact hl.stands (h.ops j) fun p ticket hi ht =>
    ⟨hnew j p ticket hi ht, fun d hd _ => hr ▸ hd⟩

/-! ### What a call does to the tiers -/

/-- The tiers after a step of a call: the L2 entry may be written or deleted, L1 may get a recent
row, a process may trust L2 again and its fence may have moved. -/
structure Touched (s u : DropRun P Row ι) : Prop where
  drops : u.drops = s.drops
  ops : u.ops = s.ops
  answers : u.answers = s.answers
  spoiled : u.spoiled = s.spoiled
  l2 : u.l2 = s.l2 ∨ ∃ v, u.l2 = s.l2.push v ∧ ∀ x ∈ v, s.Dated x ∧ s.Recent x
  l1 : ∀ q, ∀ x ∈ u.l1 q, x ∈ s.l1 q ∨
    s.Dated x ∧ ∀ d ∈ s.drops, d.process = q → d.cause ≤ x.moment
  trusted : ∀ q, u.trusted q = true → s.trusted q = true ∨
    u.l2 = s.l2 ∧ ∀ d ∈ s.drops, d.process = q → s.FreshFor d
  fence : u.fence = s.fence ∨ ∃ q, u.fence = update s.fence q (L1Fence.changed (s.fence q))

lemma Touched.refl (s : DropRun P Row ι) : Touched s s :=
  ⟨rfl, rfl, rfl, rfl, .inl rfl, fun _ _ hx => .inl hx, fun _ hq => .inl hq, .inl rfl⟩

lemma Touched.push {v : Option (DatedRow Row)} (hv : ∀ x ∈ v, s.Dated x ∧ s.Recent x) :
    Touched s { s with l2 := s.l2.push v } :=
  ⟨rfl, rfl, rfl, rfl, .inr ⟨v, rfl, hv⟩, fun _ _ hx => .inl hx, fun _ hq => .inl hq, .inl rfl⟩

lemma Touched.setL1 (hx : s.Dated x) (hd : ∀ d ∈ s.drops, d.process = p → d.cause ≤ x.moment) :
    Touched s (s.setL1 p (some x)) := by
  refine ⟨rfl, rfl, rfl, rfl, .inl rfl, fun q y hy => ?_, fun _ hq => .inl hq, .inl rfl⟩
  obtain ⟨rfl, ⟨⟩⟩ | ⟨-, hy⟩ := of_update_eq hy
  · exact .inr ⟨hx, hd⟩
  · exact .inl hy

lemma Touched.evictL1 (p : P) : Touched s (s.evictL1 p) := by
  refine ⟨rfl, rfl, rfl, rfl, .inl rfl, fun q y hy => ?_, fun _ hq => .inl hq, .inr ⟨p, rfl⟩⟩
  obtain ⟨-, ⟨⟩⟩ | ⟨-, hy⟩ := of_update_eq hy
  exact .inl hy

lemma Touched.remember (hlook : look.drops = s.tableDrops p →
    ∀ d ∈ s.drops, d.process = p → s.FreshFor d) : Touched s (s.remember p look) := by
  unfold DropRun.remember
  split_ifs with hd
  · refine ⟨rfl, rfl, rfl, rfl, .inl rfl, fun _ _ hx => .inl hx, fun q hq => ?_, .inl rfl⟩
    have hq : update s.trusted p true q = true := hq
    rcases eq_or_ne q p with rfl | he
    · exact .inr ⟨rfl, hlook hd⟩
    rw [update_of_ne he] at hq
    exact .inl hq
  · exact .refl s

def tick [DecidableEq ι] (s u : DropRun P Row ι) (i : ι) (op : DropOp P Row) : DropRun P Row ι :=
  { u.setOp i op with clock := s.clock + 1, past := s.past ++ [u.l3] }

omit [DecidableEq P] in
lemma toOp_update [DecidableEq ι] (f : ι → DropOp P Row) (i : ι) (op : DropOp P Row) :
    (fun j => (update f i op j).toOp) = update (fun j => (f j).toOp) i op.toOp := by
  funext j
  exact Function.apply_update (fun _ (op : DropOp P Row) => op.toOp) f i op j

variable {u : DropRun P Row ι} (h : Inv s)
include h

lemma Inv.touched [DecidableEq ι] (hu : Touched s u) (hi : op.toOp.ticket = (s.ops i).toOp.ticket)
    (hsa : op.toOp.isSave = (s.ops i).toOp.isSave) (hop : Later s (s.tick u i op) →
      (∀ p ticket, op.toOp.ticket = some (p, ticket) → (s.tick u i op).newest p ticket = true →
        s.newest p ticket = true) → (s.tick u i op).Stands op) : Inv (s.tick u i op) := by
  have hda : ∀ x, s.Dated x → (s.tick u i op).Dated x := by
    intro x hx
    unfold Dated at hx ⊢
    have hpa : (s.tick u i op).past = s.past ++ [u.l3] := rfl
    rw [hpa, List.getElem?_append_left (List.getElem?_eq_some_iff.1 hx).1]
    exact hx
  have ho : (s.tick u i op).ops = update s.ops i op := by
    rw [← hu.ops]
    rfl
  have hl2 : L2Later s (s.tick u i op) := by
    rcases hu.l2 with hl2 | ⟨v, hl2, hv⟩
    · exact .same hl2 hu.spoiled
    · exact .push (fun d hd => (h.drops d hd).2.2) hl2 fun x hx => ⟨hda x (hv x hx).1, (hv x hx).2⟩
  have htoOp : (fun j => ((s.tick u i op).ops j).toOp) =
      update (fun j => (s.ops j).toOp) i op.toOp := by
    rw [ho]
    exact toOp_update s.ops i op
  have he : FenceInv u.fence fun j => (s.ops j).toOp := by
    rcases hu.fence with hf | ⟨q, hf⟩
    · exact hf ▸ h.fence
    · exact hf ▸ h.fence.changed q
  have hnew : ∀ j p ticket, (s.ops j).toOp.ticket = some (p, ticket) →
      (s.tick u i op).newest p ticket = true → s.newest p ticket = true := by
    intro j p ticket hj hn
    rcases hu.fence with hf | ⟨q, hf⟩
    · have hn : L1Fence.stillNewest (u.fence p) ticket = true := hn
      rwa [hf] at hn
    have hn : L1Fence.stillNewest (u.fence p) ticket = true := hn
    rw [hf] at hn
    exact (h.fence.stillNewest_of_changed hj hn).2
  refine h.next rfl rfl hu.drops hl2 ?_ ?_ ?_
    (fun hl => stands_update hl h hu.drops ho
      (hop hl fun p ticket ht => hnew i p ticket (hi ▸ ht)) hnew) ?_
  · rw [htoOp]
    exact he.setOp hi fun _ _ => hsa
  · intro q x hx
    exact (hu.l1 q x hx).imp id fun hx => ⟨hda x hx.1, hx.2⟩
  · intro q hq
    rcases hu.trusted q hq with hq | ⟨hl2', hal⟩
    · exact .inl hq
    refine .inr fun d hd hdq hlive => ?_
    have hl' : s.live ≠ none := by
      rwa [live, show (s.tick u i op).l2 = s.l2 from hl2',
        show (s.tick u i op).spoiled = s.spoiled from hu.spoiled] at hlive
    rw [show (s.tick u i op).l2 = s.l2 from hl2']
    exact hal d hd hdq hl'
  · exact fun a ha => .inl (hu.answers ▸ ha)

/-! ### A pull-through -/

lemma Inv.since_live (hx : s.live = some x)
    (hr : ∀ d ∈ s.drops, d.process = p → d.moment < startedAt → s.FreshFor d) :
    s.Since p startedAt x := by
  have he : s.live ≠ none := by
    rw [hx]
    exact nofun
  have hva : s.l2.value = some x := by
    unfold live at hx
    split_ifs at hx
    exact hx
  exact ⟨(h.l2 x hva).1, fun d hd hp hlt => (h.l2 x hva).2 d hd (hr d hd hp hlt he)⟩

lemma Inv.since_after (hx : s.After startedAt x) : s.Since p startedAt x :=
  ⟨hx.1, fun d hd _ hlt => (h.drops d hd).1.trans (hlt.le.trans hx.2)⟩

lemma Inv.dated_present {row : Row} (hrow : s.l3 = some row) : s.Dated ⟨row, s.clock⟩ := by
  rw [Dated, h.present, hrow]

omit h in
lemma lookStands_now {drops : ℕ} (hd : drops ≤ s.tableDrops p) {untrusted : Bool}
    (hlive : untrusted = false → s.live = none) :
    s.LookStands p startedAt ⟨drops, s.l2.revision, untrusted⟩ where
  drops_le := hd
  moved he := absurd rfl he
  settled _ ho _ _ _ he := absurd (hlive (ho.resolve_right fun he => he rfl)) he

lemma Inv.fresh_of_not_distrusts (hp : s.distrustsL2 p = false) :
    ∀ d ∈ s.drops, d.process = p → s.FreshFor d := by
  intro d hd hdp
  refine h.trusted p ?_ d hd hdp
  have hpos : 0 < s.tableDrops p := length_pos_of_mem (mem_filter.2 ⟨hd, decide_eq_true hdp⟩)
  simpa [distrustsL2, hpos] using hp

variable {ticket : KeyTicket}

lemma Inv.lookupStep {pc pc' : PullPc Row} (hop : s.Stands (.pull p ticket startedAt pc))
    (hst : s.pullStep p ticket pc .lookup = some (u, pc')) :
    Touched s u ∧ s.PullStands p startedAt pc' := by
  obtain ⟨hstart, hw, hpc⟩ := hop
  unfold DropRun.pullStep at hst
  dsimp only at hst
  split at hst
  · rename_i drops distrust
    split at hst
    · rename_i x hx
      split_ifs at hst with hi <;> cases hst
      · exact ⟨.refl s, lookStands_now hpc.1 (by rintro ⟨⟩)⟩
      · exact ⟨.refl s, by rintro _ ⟨⟩, h.since_live hx (hpc.2 (Bool.eq_false_iff.2 hi))⟩
    rename_i hnone
    cases hst
    exact ⟨.refl s, lookStands_now hpc.1 fun _ => hnone⟩
  · cases hst

lemma Inv.seedStep {pc pc' : PullPc Row} (hop : s.Stands (.pull p ticket startedAt pc))
    (ho : ∀ x ∈ s.puts (.pull p ticket startedAt pc), s.Recent x)
    (hst : s.pullStep p ticket pc .seed = some (u, pc')) :
    Touched s u ∧ s.PullStands p startedAt pc' := by
  obtain ⟨hstart, hw, hpc⟩ := hop
  unfold DropRun.pullStep at hst
  dsimp only at hst
  split at hst
  · rename_i look x
    obtain ⟨hlook, haf⟩ := hpc
    split at hst <;> cases hst
    · rename_i kv hk
      obtain ⟨hrev, rfl⟩ := KvKey.update_eq_some_iff.1 hk
      have hr := ho x (by simp [puts, hrev])
      refine ⟨.push ?_, ?_, h.since_after haf⟩
      · rintro _ ⟨⟩
        exact ⟨haf.1, hr⟩
      rintro _ ⟨⟩
      exact hlook
    rename_i he
    have hne : s.l2.revision ≠ look.revision := by
      intro hq
      simp [KvKey.update, hq] at he
    exact ⟨.refl s, hlook, haf, hlook.moved hne⟩
  · cases hst

lemma Inv.relookupStep {pc pc' : PullPc Row} (hop : s.Stands (.pull p ticket startedAt pc))
    (hst : s.pullStep p ticket pc .relookup = some (u, pc')) :
    Touched s u ∧ s.PullStands p startedAt pc' := by
  obtain ⟨hstart, hw, hpc⟩ := hop
  unfold DropRun.pullStep at hst
  dsimp only at hst
  split at hst
  · rename_i look x
    obtain ⟨hlook, haf, hfr⟩ := hpc
    split at hst <;> cases hst
    · rename_i y hy
      refine ⟨.refl s, ?_, h.since_live hy hfr⟩
      rintro _ ⟨⟩
      exact hlook
    refine ⟨.refl s, hlook, ?_⟩
    rintro _ ⟨⟩
    exact h.since_after haf
  · cases hst

omit h in
lemma Stands.cacheStep {pc pc' : PullPc Row} (hop : s.Stands (.pull p ticket startedAt pc))
    (hst : s.pullStep p ticket pc .cache = some (u, pc')) :
    Touched s u ∧ s.PullStands p startedAt pc' := by
  obtain ⟨hstart, hw, hpc⟩ := hop
  unfold DropRun.pullStep at hst
  dsimp only at hst
  split at hst
  · rename_i look x
    obtain ⟨hlook, hx⟩ := hpc
    have ht : Touched s (if s.newest p ticket = true then s.setL1 p (some x) else s) := by
      split_ifs with hnew
      · exact .setL1 hx.1 fun d hd hp => hx.2 d hd hp (hw hnew d hd hp)
      · exact .refl s
    split at hst <;> cases hst
    · refine ⟨ht, ?_⟩
      rintro _ ⟨⟩
      exact hx
    refine ⟨ht, hlook _ rfl, ?_⟩
    rintro _ ⟨⟩
    exact hx
  · cases hst

omit h in
lemma Stands.settleStep {pc pc' : PullPc Row} (hop : s.Stands (.pull p ticket startedAt pc))
    (hst : s.pullStep p ticket pc .settle = some (u, pc')) :
    Touched s u ∧ s.PullStands p startedAt pc' := by
  obtain ⟨hstart, hw, hpc⟩ := hop
  unfold DropRun.pullStep at hst
  dsimp only at hst
  split at hst
  · obtain ⟨hlook, han⟩ := hpc
    split_ifs at hst with hz hu <;> cases hst
    · exact ⟨.refl s, han⟩
    · exact ⟨.refl s, hlook, han⟩
    · exact ⟨.remember fun hd => hlook.settled hd (.inl (Bool.eq_false_iff.2 hu)), han⟩
  · cases hst

lemma Inv.pullStep {pc pc' : PullPc Row} {a : PullAct}
    (hop : s.Stands (.pull p ticket startedAt pc))
    (ho : a = .seed → ∀ x ∈ s.puts (.pull p ticket startedAt pc), s.Recent x)
    (hst : s.pullStep p ticket pc a = some (u, pc')) :
    Touched s u ∧ s.PullStands p startedAt pc' := by
  obtain ⟨hstart, hw, hpc⟩ := hop
  cases a with simp only [DropRun.pullStep] at hst
  | judge =>
    split at hst <;> cases hst
    exact ⟨.refl s, le_rfl, fun hd d hd' hp _ => h.fresh_of_not_distrusts hd d hd' hp⟩
  | lookup => exact h.lookupStep ⟨hstart, hw, hpc⟩ hst
  | fetch =>
    split at hst
    · split at hst <;> cases hst
      · rename_i row hrow
        exact ⟨.refl s, hpc, h.dated_present hrow, hstart.le⟩
      · exact ⟨.refl s, hpc⟩
    · cases hst
  | seed => exact h.seedStep ⟨hstart, hw, hpc⟩ (ho rfl) hst
  | relookup => exact h.relookupStep ⟨hstart, hw, hpc⟩ hst
  | dropEntry =>
    split at hst
    · split at hst <;> cases hst
      · rename_i kv hk
        obtain ⟨-, rfl⟩ := KvKey.deleteAt_eq_some_iff.1 hk
        exact ⟨.push (by rintro _ ⟨⟩), hpc, by rintro _ ⟨⟩⟩
      · exact ⟨.refl s, hpc, by rintro _ ⟨⟩⟩
    · cases hst
  | leaveEntry =>
    split at hst <;> cases hst
    exact ⟨.refl s, hpc, by rintro _ ⟨⟩⟩
  | cache => exact Stands.cacheStep ⟨hstart, hw, hpc⟩ hst
  | settle => exact Stands.settleStep ⟨hstart, hw, hpc⟩ hst
  | probe =>
    split at hst
    · obtain ⟨hlook, han⟩ := hpc
      split_ifs at hst with hm <;> cases hst
      · exact ⟨.remember fun hd => hlook.settled hd (.inr hm), han⟩
      · exact ⟨.refl s, han⟩
    · cases hst

variable [DecidableEq ι]

lemma Inv.dated_commit {row : Row} (hrow : u.l3 = some row)
    (i : ι) (op : DropOp P Row) : (s.tick u i op).Dated ⟨row, s.clock + 1⟩ := by
  have hpa : (s.tick u i op).past = s.past ++ [u.l3] := rfl
  rw [Dated, hpa, ← h.past, hrow]
  simp

lemma Inv.saveStep {pc pc' : CommitPc Row} {a : SaveAct}
    (hop : s.Stands (.save p ticket startedAt pc))
    (ho : a = .update → ∀ x ∈ s.puts (.save p ticket startedAt pc), s.Recent x)
    (ht : s.saveStep p ticket pc a = some (u, pc')) :
    Touched s u ∧ (Later s (s.tick u i op) → (s.tick u i op).SaveStands startedAt pc') := by
  obtain ⟨hstart, he, hpc⟩ := hop
  have hk : s.SaveStands startedAt pc' →
      Later s (s.tick u i op) → (s.tick u i op).SaveStands startedAt pc' :=
    fun hpc hl => hl.saveStands hpc
  cases a with simp only [DropRun.saveStep] at ht
  | revision =>
    split at ht <;> cases ht
    exact ⟨.refl s, hk trivial⟩
  | commit =>
    split at ht <;> cases ht
    exact ⟨⟨rfl, rfl, rfl, rfl, .inl rfl, fun _ _ hx => .inl hx, fun _ hq => .inl hq, .inl rfl⟩,
      fun _ => ⟨h.dated_commit rfl i op, hstart.le.trans (Nat.le_succ _)⟩⟩
  | asSent =>
    split at ht <;> cases ht
    exact ⟨.refl s, hk hpc⟩
  | readBack =>
    split at ht <;> cases ht
    rename_i row hrow
    exact ⟨.refl s, hk ⟨h.dated_present hrow, hstart.le⟩⟩
  | update =>
    split at ht
    · rename_i x rev
      split at ht <;> cases ht
      · rename_i kv hkv
        obtain ⟨hrev, rfl⟩ := KvKey.update_eq_some_iff.1 hkv
        have hr := ho rfl x (by simp [puts, hrev])
        refine ⟨.push ?_, hk hpc⟩
        rintro _ ⟨⟩
        exact ⟨hpc.1, hr⟩
      · exact ⟨.refl s, hk hpc⟩
    · cases ht
  | delete =>
    split at ht <;> cases ht
    exact ⟨.push nofun, hk hpc⟩
  | cache =>
    split at ht
    · rename_i x landed
      split_ifs at ht with hnew <;> cases ht
      · rw [Bool.and_eq_true] at hnew
        exact ⟨.setL1 hpc.1 fun d hd hp =>
          (h.drops d hd).1.trans ((he hnew.2 d hd hp).le.trans hpc.2), hk trivial⟩
      · exact ⟨.evictL1 p, hk trivial⟩
    · cases ht
  | fails => split at ht <;> cases ht <;> exact ⟨.evictL1 p, hk trivial⟩

lemma Inv.begin {w : Bool} (hidle : s.ops i = .idle)
    (ht : op.toOp.ticket = some (p, (L1Fence.beginTicket (s.fence p) w).2))
    (hsa : op.toOp.isSave = true → w = true)
    (hop : ∀ t : DropRun P Row ι, t.drops = s.drops → t.clock = s.clock + 1 → t.Stands op) :
    Inv (s.tick (s.setFence p (L1Fence.beginTicket (s.fence p) w).1) i op) := by
  refine h.next rfl rfl rfl (.same rfl rfl) ?_ (fun _ _ hx => .inl hx) (fun _ hq => .inl hq)
    (fun hl => stands_update hl h rfl rfl (hop _ rfl rfl) ?_) (fun _ ha => .inl ha)
  · have hnone : (s.ops i).toOp.ticket = none := by
      rw [hidle]
      rfl
    have he := h.fence.beginTicket hnone ht hsa
    rwa [← toOp_update] at he
  · exact fun j q ticket hj hn => h.fence.stillNewest_of_beginTicket hj hn

lemma Inv.end {as : List (PullAnswer P Row)} (ht : (s.ops i).toOp.ticket = some (p, ticket))
    (has : ∀ a ∈ as, a.startedAt < s.clock ∧ ∃ x : DatedRow Row, x.row = a.row ∧
      s.Since a.process a.startedAt x) :
    Inv { s.tick (s.setFence p (L1Fence.endTicket (s.fence p) ticket)) i .idle with
      answers := s.answers ++ as } := by
  refine h.next rfl rfl rfl (.same rfl rfl) ?_ (fun _ _ hx => .inl hx) (fun _ hq => .inl hq)
    (fun hl => stands_update hl h rfl rfl trivial ?_) fun a ha => ?_
  · have hidle : ((DropOp.idle : DropOp P Row).toOp).ticket = none := rfl
    have he := h.fence.endTicket ht hidle
    rwa [← toOp_update] at he
  · exact fun j q ticket hj hn => FenceInv.stillNewest_of_endTicket hn
  rcases List.mem_append.1 ha with ha | ha
  · exact .inl ha
  obtain ⟨hstart, x, hrow, hx⟩ := has a ha
  refine .inr ⟨hstart.trans (Nat.lt_succ_self _), fun d hd hp hlt =>
    ⟨x.moment, hx.2 d hd hp hlt, ?_⟩⟩
  have hpa : s.past[x.moment]? = some (some x.row) := hx.1
  rw [← hrow, ← hpa]
  exact List.getElem?_append_left (List.getElem?_eq_some_iff.1 hpa).1

omit [DecidableEq ι] in
lemma Inv.pass (hc : t.clock = s.clock + 1) (hpa : t.past = s.past ++ [t.l3])
    (hr : t.drops = s.drops) (hl2 : L2Later s t) (ho : t.ops = s.ops)
    (he : t.fence = s.fence) (hl1 : t.l1 = s.l1) (ht : ∀ p, t.trusted p = true → s.trusted p = true)
    (han : t.answers = s.answers) : Inv t := by
  refine h.next hc hpa hr hl2 ?_ (fun p x hx => .inl (hl1 ▸ hx))
    (fun p hp => .inl (ht p hp)) (fun hl i => ?_) fun a ha => .inl (han ▸ ha)
  · rw [he, ho]
    exact h.fence
  rw [ho]
  refine hl.stands (h.ops i) fun p ticket _ hn => ⟨?_, fun d hd _ => hr ▸ hd⟩
  have hn : L1Fence.stillNewest (t.fence p) ticket = true := hn
  rwa [he] at hn

omit [DecidableEq ι] in
lemma Inv.hit (hx : s.l1 p = some x) : Inv { s with
      answers := s.answers ++ [⟨p, s.clock, x.row⟩]
      clock := s.clock + 1
      past := s.past ++ [s.l3] } := by
  refine h.next rfl rfl rfl (.same rfl rfl) h.fence (fun _ _ hx => .inl hx) (fun _ hq => .inl hq)
    (fun hl i => hl.stands (h.ops i) fun p ticket _ hn => ⟨hn, fun d hd _ => hd⟩)
    fun a ha => ?_
  rcases List.mem_append.1 ha with ha | ha
  · exact .inl ha
  obtain rfl := List.mem_singleton.1 ha
  refine .inr ⟨Nat.lt_succ_self _, fun d hd hp _ => ⟨x.moment, (h.l1 p x hx).2 d hd hp, ?_⟩⟩
  have hpa : s.past[x.moment]? = some (some x.row) := (h.l1 p x hx).1
  rw [← hpa]
  exact List.getElem?_append_left (List.getElem?_eq_some_iff.1 hpa).1

omit [DecidableEq ι] in
lemma Inv.evict (p : P) :
    Inv { s.evictL1 p with clock := s.clock + 1, past := s.past ++ [s.l3] } := by
  refine h.next rfl rfl rfl (.same rfl rfl) (h.fence.changed p)
    (fun q x hx => .inl ?_) (fun _ hq => .inl hq) (fun hl i => ?_) fun _ ha => .inl ha
  · obtain ⟨-, ⟨⟩⟩ | ⟨-, hx⟩ := of_update_eq hx
    exact hx
  exact hl.stands (h.ops i) fun q ticket ht hn =>
    ⟨(h.fence.stillNewest_of_changed ht hn).2, fun d hd _ => hd⟩

omit [DecidableEq ι] in
lemma Inv.drop {cause : ℕ} (hca : cause ≤ s.clock) (p : P) :
    Inv { s.dropTable p cause with clock := s.clock + 1, past := s.past ++ [s.l3] } := by
  generalize ht : { s.dropTable p cause with clock := s.clock + 1, past := s.past ++ [s.l3] } = t
  have hmem : ∀ d ∈ t.drops, d ∈ s.drops ∨ d = ⟨p, cause, s.clock, s.l2.sequence⟩ := by
    subst ht
    intro d hd
    simpa [dropTable] using hd
  have ho : ∀ d ∈ t.drops, ∀ q ≠ p, d.process = q → d ∈ s.drops := by
    intro d hd q hq hdq
    apply (hmem d hd).resolve_right
    rintro rfl
    exact hq hdq.symm
  have hco : ∀ q, t.tableDrops q = s.tableDrops q + if q = p then 1 else 0 := by
    subst ht
    intro q
    by_cases hq : q = p
    · simp [tableDrops, dropTable, hq]
    · simp [tableDrops, dropTable, hq, Ne.symm hq]
  have hl : Later s t := by
    refine ⟨⟨s.l3, by rw [← ht]⟩, by rw [← ht], fun d hd => ?_, fun q => ?_,
      fun q hle d hd hdq => ?_, .inl (by subst ht; exact ⟨rfl, id⟩)⟩
    · exact (hmem d hd).imp id fun hd => by rw [hd]
    · rw [hco]
      exact Nat.le_add_right _ _
    rw [hco] at hle
    refine ho d hd q (fun hq => ?_) hdq
    rw [if_pos hq] at hle
    omega
  have hl1 : ∀ q, ∀ x ∈ t.l1 q, q ≠ p ∧ x ∈ s.l1 q := by
    subst ht
    intro q x hx
    obtain ⟨-, ⟨⟩⟩ | hx := of_update_eq hx
    exact hx
  have hr : ∀ q, t.trusted q = true → q ≠ p ∧ s.trusted q = true := by
    subst ht
    intro q hx
    obtain ⟨-, ⟨⟩⟩ | hx := of_update_eq hx
    exact hx
  have he : t.fence = update s.fence p (L1Fence.changed (s.fence p)) := by
    rw [← ht]
    rfl
  have hl2 : t.l2 = s.l2 := by
    rw [← ht]
    rfl
  have hos : t.ops = s.ops := by
    rw [← ht]
    rfl
  refine ⟨?_, ?_, ?_, fun d hd => ?_, fun x hx => ?_, fun q x hx => ?_, fun q hq d hd hdq => ?_,
    fun i => ?_, fun a ha => ?_⟩
  · rw [he, hos]
    exact h.fence.changed p
  · rw [← ht]
    simp [h.past]
  · rw [← ht, ← h.past]
    simp [dropTable, evictL1, setTrusted, setL1, setFence]
  · rw [hl2, hl.clock]
    rcases hmem d hd with hd | rfl
    · obtain ⟨hc, hm, hs⟩ := h.drops d hd
      exact ⟨hc, hm.trans (Nat.lt_succ_self _), hs⟩
    · exact ⟨hca, Nat.lt_succ_self _, le_rfl⟩
  · rw [hl2] at hx ⊢
    refine ⟨hl.dated (h.l2 x hx).1, fun d hd hlt => ?_⟩
    rcases hmem d hd with hd | rfl
    · exact (h.l2 x hx).2 d hd hlt
    · exact absurd hlt (not_lt.2 s.l2.revision_le)
  · obtain ⟨hq, hx⟩ := hl1 q x hx
    exact ⟨hl.dated (h.l1 q x hx).1, fun d hd hdq => (h.l1 q x hx).2 d (ho d hd q hq hdq) hdq⟩
  · obtain ⟨hqp, hq⟩ := hr q hq
    have hd := ho d hd q hqp hdq
    exact hl.freshFor hd (h.trusted q hq d hd hdq)
  · rw [hos]
    refine hl.stands (h.ops i) fun q ticket hi hn => ?_
    have hn : L1Fence.stillNewest (t.fence q) ticket = true := hn
    rw [he] at hn
    obtain ⟨hq, hn⟩ := h.fence.stillNewest_of_changed hi hn
    exact ⟨hn, fun d hd hdq => ho d hd q hq hdq⟩
  have ha : a ∈ s.answers := by
    subst ht
    exact ha
  obtain ⟨hstart, hal⟩ := h.answers a ha
  refine ⟨hl.clock ▸ hstart.trans (Nat.lt_succ_self _), fun d hd hdp hlt => ?_⟩
  obtain ⟨m, hm, hrow⟩ := hal d (hl.mem_of_lt hd hstart hlt) hdp hlt
  have hx : s.Dated ⟨a.row, m⟩ := hrow
  exact ⟨m, hm, hl.dated hx⟩

theorem Inv.step {e : DropEvent P Row ι} (ho : s.Timely e) (hst : s.step e = some t) : Inv t := by
  obtain ⟨u, hact, rfl⟩ := Option.map_eq_some_iff.1 hst
  cases e with try cases hact
  | readBegin =>
    simp only [act] at hact
    split at hact <;> cases hact
    rename_i hidle
    exact h.begin hidle rfl nofun fun t hr hc => ⟨hc ▸ Nat.lt_succ_self _,
      fun _ d hd _ => (h.drops d (hr ▸ hd)).2.1, trivial⟩
  | pull i =>
    simp only [act] at hact
    split at hact
    · rename_i p ticket startedAt pc hi
      obtain ⟨⟨u, pc'⟩, hpu, rfl⟩ := Option.map_eq_some_iff.1 hact
      have hop : s.Stands (.pull p ticket startedAt pc) := hi ▸ h.ops i
      obtain ⟨hu, hpc⟩ := h.pullStep hop (by rintro rfl; exact hi ▸ ho i rfl) hpu
      have hiv : Inv (s.tick u i (.pull p ticket startedAt pc')) := by
        refine h.touched hu (by rw [hi]; rfl) (by rw [hi]; rfl) fun hl hnew =>
          ⟨hop.1.trans (Nat.lt_succ_self _), fun hn d hd hp => ?_, hl.pullStands hop.1 hpc⟩
        exact hop.2.1 (hnew p ticket rfl hn) d (hu.drops ▸ hd) hp
      exact hiv
    · cases hact
  | readEnd i =>
    simp only [act] at hact
    split at hact <;> cases hact
    rename_i p ticket startedAt ans hi
    obtain ⟨hstart, -, hpc⟩ : s.Stands (.pull p ticket startedAt (.ending ans)) := hi ▸ h.ops i
    refine h.end (by rw [hi]; rfl) fun a ha => ?_
    obtain ⟨x, hx, rfl⟩ := Option.map_eq_some_iff.1 (Option.mem_toList.1 ha)
    exact ⟨hstart, x, rfl, hpc x hx⟩
  | hit =>
    simp only [act] at hact
    split at hact <;> cases hact
    rename_i x hx
    exact h.hit hx
  | saveBegin =>
    simp only [act] at hact
    split at hact <;> cases hact
    rename_i hidle
    exact h.begin hidle rfl (fun _ => rfl) fun t hr hc => ⟨hc ▸ Nat.lt_succ_self _,
      fun _ d hd _ => (h.drops d (hr ▸ hd)).2.1, trivial⟩
  | save i =>
    simp only [act] at hact
    split at hact
    · rename_i p ticket startedAt pc hi
      obtain ⟨⟨u, pc'⟩, hsv, rfl⟩ := Option.map_eq_some_iff.1 hact
      have hop : s.Stands (.save p ticket startedAt pc) := hi ▸ h.ops i
      have hsa : Touched s u ∧ (Later s (s.tick u i (.save p ticket startedAt pc')) →
          (s.tick u i (.save p ticket startedAt pc')).SaveStands startedAt pc') :=
        h.saveStep hop (by rintro rfl; exact hi ▸ ho i rfl) hsv
      have hiv : Inv (s.tick u i (.save p ticket startedAt pc')) := by
        refine h.touched hsa.1 (by rw [hi]; rfl) (by rw [hi]; rfl) fun hl hnew =>
          ⟨hop.1.trans (Nat.lt_succ_self _), fun hn d hd hp => ?_, hsa.2 hl⟩
        exact hop.2.1 (hnew p ticket rfl hn) d (hsa.1.drops ▸ hd) hp
      exact hiv
    · cases hact
  | saveEnd i =>
    simp only [act] at hact
    split at hact <;> cases hact
    rename_i p ticket startedAt hi
    have ht : (s.ops i).toOp.ticket = some (p, ticket) := by
      rw [hi]
      rfl
    have hnone : ∀ a ∈ ([] : List (PullAnswer P Row)), a.startedAt < s.clock ∧
        ∃ x : DatedRow Row, x.row = a.row ∧ s.Since a.process a.startedAt x := nofun
    have hiv := h.end ht hnone
    rw [append_nil] at hiv
    exact hiv
  | external => exact h.pass rfl rfl rfl (.same rfl rfl) rfl rfl rfl (fun _ hp => hp) rfl
  | evict p => exact h.evict p
  | l2Delete =>
    exact h.pass rfl rfl rfl (.push (fun d hd => (h.drops d hd).2.2) rfl nofun) rfl rfl rfl
      (fun _ hp => hp) rfl
  | l2Lapse => exact h.pass rfl rfl rfl (.lapse rfl) rfl rfl rfl (fun _ hp => hp) rfl
  | foreign => exact h.pass rfl rfl rfl (.foreign rfl rfl) rfl rfl rfl (fun _ hp => hp) rfl
  | spoil => exact h.pass rfl rfl rfl (.spoil rfl rfl) rfl rfl rfl (fun _ hp => hp) rfl
  | forget p =>
    refine h.pass rfl rfl rfl (.same rfl rfl) rfl rfl rfl (fun q hq => ?_) rfl
    obtain ⟨-, ⟨⟩⟩ | ⟨-, hq⟩ := of_update_eq hq
    exact hq
  | drop p =>
    obtain ⟨hca, hact⟩ := Option.ite_none_right_eq_some.1 hact
    cases hact
    exact h.drop hca p

omit h

/-- In every run in which no seed and no save puts into L2, after a drop, a row that it had from L3
before that drop's cause: a read that began after a drop of its process answers a row that L3 held
at the drop's cause or later, and so is every row in L1. -/
theorem reads_after_drop {row : Option Row} {es : List (DropEvent P Row ι)}
    (hrun : (system.guard Timely).run (start row) es = some s) :
    (∀ a ∈ s.answers, ∀ d ∈ s.drops, d.process = a.process → d.moment < a.startedAt →
      ∃ m, d.cause ≤ m ∧ s.past[m]? = some (some a.row)) ∧
    ∀ p, ∀ x ∈ s.l1 p, ∀ d ∈ s.drops, d.process = p →
      d.cause ≤ x.moment ∧ s.past[x.moment]? = some (some x.row) := by
  have h : Inv s := by
    refine StepSystem.run_guard_invariant _ (I := Inv) (fun s e t h ho ht => ?_)
      (.start row) hrun
    exact h.step ho ht
  exact ⟨fun a ha => (h.answers a ha).2,
    fun p x hx d hd hp => ⟨(h.l1 p x hx).2 d hd hp, (h.l1 p x hx).1⟩⟩

/-- The old row is in L2 when the table is dropped; a read goes past it to L3 and writes the new row
over it, and the next one trusts it. -/
def readPastEntry : List (DropEvent Unit ℕ Bool) :=
  [.readBegin true (), .pull true .judge, .pull true .lookup, .pull true (.fetch true),
    .pull true .seed, .pull true .cache, .pull true .settle, .readEnd true,
    .external (some 2), .drop () 9,
    .readBegin true (), .pull true .judge, .pull true .lookup, .pull true (.fetch true),
    .pull true .seed, .pull true .cache, .pull true .settle, .pull true .probe, .readEnd true,
    .evict (), .readBegin false (), .pull false .judge, .pull false .lookup, .pull false .cache,
    .readEnd false]

theorem reads_after_drop_readPastEntry :
    ∃ s, (system.guard Timely).run (start (some 1)) readPastEntry = some s ∧
      s.answers = [⟨(), 0, 1⟩, ⟨(), 10, 2⟩, ⟨(), 20, 2⟩] ∧ s.l1 () = some ⟨2, 13⟩ ∧
      ∀ a ∈ s.answers, ∀ d ∈ s.drops, d.process = a.process → d.moment < a.startedAt →
        ∃ m, d.cause ≤ m ∧ s.past[m]? = some (some a.row) := by
  refine StepSystem.exists_run_imp _ (p := fun s => s.answers = [⟨(), 0, 1⟩, ⟨(), 10, 2⟩,
    ⟨(), 20, 2⟩] ∧ s.l1 () = some ⟨2, 13⟩) (by decide +kernel) fun s hr hs => ?_
  exact ⟨hs.1, hs.2, (reads_after_drop hr).1⟩

/-- A read that had the old row from L3 before the drop writes it to L2 between the look and the
seed of a read that began after the drop. The later read is refused, looks again, and answers and
caches the old row, which L3 did not hold at the drop's cause or later. -/
theorem stale_after_drop : ∃ s, system.run (start (some 1) : DropRun Unit ℕ Bool)
        [.readBegin false (), .pull false .judge, .pull false .lookup, .pull false (.fetch true),
          .external (some 2), .drop () 5,
          .readBegin true (), .pull true .judge, .pull true .lookup, .pull false .seed,
          .pull true (.fetch true), .pull true .seed, .pull true .relookup, .pull true .cache,
          .pull true .settle, .readEnd true] = some s ∧
      s.drops = [⟨(), 5, 5, 0⟩] ∧ s.answers = [⟨(), 6, 1⟩] ∧ s.l1 () = some ⟨1, 3⟩ ∧
      s.trusted () = true ∧ some 1 ∉ s.past.drop 5 :=
  StepSystem.exists_run_of_any _ (by decide +kernel)

end DropRun

end ThreeTears
