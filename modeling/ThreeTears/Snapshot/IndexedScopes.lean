import ThreeTears.Lib.Families
import ThreeTears.Snapshot.ScopeIndex

/-!
# No order of removals and publishes loses a scope

A scope whose pointer stands is in the index, or some call is still to put it there: the publish
that moved the pointer, or a removal that takes the scope out of the index and looks at its pointer
after.
-/

namespace ThreeTears

open List IndexRun

variable {K T O κ : Type*}

def AfterUpdate.Owes (k : K) : AfterUpdate K → Prop
  | .done => False
  | .look removed _ => k ∈ removed

def IndexPc.Owes (k : K) : IndexPc K T O → Prop
  | .indexing update after | .settling update after _ _ =>
    k ∈ update.add ∧ k ∉ update.remove ∨ after.Owes k
  | .looking left standing => k ∈ left ∨ k ∈ standing
  | _ => False

def IndexPc.Names (k : K) : IndexPc K T O → Prop
  | .indexing update _ | .settling update _ _ _ => k ∈ update.remove
  | .reading candidates _ _ | .scanning candidates _ => k ∈ candidates
  | .deleting left _ removed _ => k ∈ left ∨ k ∈ removed
  | _ => False

def IndexEvent.Names (k : K) : IndexEvent K T O κ → Prop
  | .call _ (.remove candidates) => k ∈ candidates
  | _ => False

/-- Only a removal takes scopes out of the index, and none that L3 held. -/
def IndexUpdate.Fits [DecidableEq K] (update : IndexUpdate K) : AfterUpdate K → Prop
  | .done => update.remove = ∅
  | .look removed l3 => update.remove = removed.toFinset ∧ ∀ k ∈ removed, k ∉ l3

namespace IndexRun

/-- While the pointer is at the revision read, it was not written since. -/
def SeenOk (s : IndexRun K T O κ) (k : K) (seen : PointerSeen) : Prop :=
  ∀ r ∈ seen.revision, 0 < r ∧ r ≤ (s.pointers k).sequence ∧
    ((s.pointers k).revision = r → s.writtenAt k ≤ seen.writes)

variable [DecidableEq K]

def Knows (s : IndexRun K T O κ) : IndexPc K T O → Prop
  | .indexing update after => update.Fits after
  | .settling update after revision body =>
    update.Fits after ∧ ∃ held, s.index.Saw revision held ∧ body = wanted update held
  | .reading _ _ seen | .scanning _ seen => ∀ k, s.SeenOk k (seen k)
  | .deleting left seen removed l3 => (∀ k, s.SeenOk k (seen k)) ∧ ∀ k ∈ left ++ removed, k ∉ l3
  | _ => True

structure Inv (s : IndexRun K T O κ) : Prop where
  writtenAt_le : ∀ k, s.writtenAt k ≤ s.writes
  knows : ∀ c, s.Knows (s.calls c)
  indexed : ∀ k, s.Standing k → k ∈ s.indexed ∨ ∃ c, (s.calls c).Owes k

variable {s s' : IndexRun K T O κ} {pc pc' : IndexPc K T O} {a : IndexAct K T O} {k : K} {c : κ}

lemma Knows.mono (h : s.Knows pc) (hi : s.index.Stands s'.index)
    (hseen : ∀ k seen, s.SeenOk k seen → s'.SeenOk k seen) : s'.Knows pc := by
  cases pc with
  | settling =>
    obtain ⟨hfi, held, hsa, hb⟩ := h
    exact ⟨hfi, held, hsa.stands hi, hb⟩
  | reading candidates left seen | scanning candidates seen => exact fun k => hseen k _ (h k)
  | deleting => exact ⟨fun k => hseen k _ (h.1 k), h.2⟩
  | _ => exact h

lemma SeenOk.push {seen : PointerSeen} {va : Option (Option (Pointer T O))} {k' : K}
    (h : s.SeenOk k seen)
    (ht : s'.pointers = Function.update s.pointers k' ((s.pointers k').push va))
    (hw : ∀ k ≠ k', s'.writtenAt k = s.writtenAt k) : s'.SeenOk k seen := by
  intro r hr
  obtain ⟨hpos, hle, hat⟩ := h r hr
  obtain rfl | hk := eq_or_ne k k'
  · rw [ht, Function.update_self]
    exact ⟨hpos, Nat.le_succ_of_le hle, fun hrev => absurd hrev (KvKey.push_revision_ne hle)⟩
  rw [ht, Function.update_of_ne hk, hw k hk]
  exact ⟨hpos, hle, hat⟩

variable {after : AfterUpdate K}

omit [DecidableEq K] in
lemma resumed_owes_iff : (resumed after : IndexPc K T O).Owes k ↔ after.Owes k := by
  cases after with
  | done => rfl
  | look => simp [resumed, IndexPc.Owes, AfterUpdate.Owes]

lemma knows_resumed (after : AfterUpdate K) : s.Knows (resumed after) := by cases after <;> trivial

variable {update : IndexUpdate K}

lemma mem_wanted (held : Option (IndexBody K)) (hk : k ∉ update.remove)
    (h : k ∈ update.add ∨ k ∈ held.elim ∅ IndexBody.scopes) : k ∈ (wanted update held).scopes := by
  simp only [wanted, Finset.mem_sdiff, Finset.mem_union]
  exact ⟨h.symm, hk⟩

lemma Turn.owes (h : s.Turn pc a pc') (ho : pc.Owes k) (ht : s.Standing k) :
    k ∈ s.indexed ∨ pc'.Owes k := by
  cases h with
  | unchanged _ _ hsa =>
    obtain ⟨hd, hr⟩ | ho := ho
    · left
      obtain ⟨b, hb, hscopes, -⟩ := hsa
      have hmem := mem_wanted s.index.value hr (.inl hd)
      rw [hscopes] at hmem
      rw [indexed, show s.index.value = some b from hb]
      exact hmem
    · exact .inr (resumed_owes_iff.2 ho)
  | readIndex update after | lostSettle update after rev body a => exact .inr ho
  | look =>
    right
    obtain hl | hs' := ho
    · obtain rfl | hl := mem_cons.1 hl
      · rw [if_pos ht]
        exact .inr (by simp)
      · exact .inl hl
    right
    split_ifs
    · exact mem_append_left _ hs'
    · exact hs'
  | lookedNone => rcases ho with h | h <;> cases h
  | putBack =>
    obtain h | h := ho
    · cases h
    · exact .inr (.inl ⟨mem_toFinset.2 h, by simp⟩)
  | _ => exact ho.elim

omit [DecidableEq K] in
lemma seenOk_read (h : s.writtenAt k ≤ s.writes) :
    s.SeenOk k ⟨(s.pointers k).getEntry.map Prod.snd, s.writes⟩ := by
  intro r hr
  obtain ⟨e, he, rfl⟩ := Option.map_eq_some_iff.1 hr
  obtain ⟨v, hv, rfl⟩ := Option.map_eq_some_iff.1 he
  exact ⟨(s.pointers k).revision_pos (by rw [hv]; rfl), (s.pointers k).revision_le, fun _ => h⟩

lemma Turn.knows (h : s.Turn pc a pc') (hw : ∀ k, s.writtenAt k ≤ s.writes)
    (hkn : s.Knows pc) : s.Knows pc' := by
  cases h with
  | rebuilt scopes whole | putBack staged => exact rfl
  | remove => exact fun k r hr => by cases hr
  | passed _ _ alw =>
    cases alw with
    | true => exact rfl
    | false => trivial
  | unchanged _ after => exact knows_resumed after
  | readIndex => exact ⟨hkn, _, .of_getEntry s.index, rfl⟩
  | lostSettle => exact hkn.1
  | readPointer _ _ k seen =>
    exact forall_update (I := fun k seen => s.SeenOk k seen) hkn (seenOk_read (hw k))
  | readAll => exact hkn
  | scan =>
    refine ⟨hkn, fun k hk => ?_⟩
    simp only [append_nil, mem_filter] at hk
    exact of_decide_eq_true hk.2
  | absent =>
    refine ⟨hkn.1, fun k' hk' => hkn.2 k' ?_⟩
    simp only [mem_append, mem_cons, not_mem_nil, or_false] at hk' ⊢
    tauto
  | kept =>
    refine ⟨hkn.1, fun k' hk' => hkn.2 k' (mem_cons_of_mem _ hk')⟩
  | takeOut => exact ⟨rfl, fun k hk => hkn.2 k hk⟩
  | _ => trivial

lemma Turn.names (h : s.Turn pc a pc') (hpc : ¬pc.Names k)
    (ha : ∀ candidates, a = .remove candidates → k ∉ candidates) : ¬pc'.Names k := by
  cases h with
  | remove candidates => exact ha candidates rfl
  | passed _ _ alw => cases alw <;> simp [added, IndexPc.Names]
  | unchanged _ after => cases after <;> simp [resumed, IndexPc.Names]
  | scan =>
    intro hk
    simp only [IndexPc.Names, mem_filter, not_mem_nil, or_false] at hk
    exact hpc hk.1
  | absent =>
    simp only [IndexPc.Names, mem_append, mem_cons, not_mem_nil, or_false] at hpc ⊢
    tauto
  | kept =>
    simp only [IndexPc.Names, mem_cons] at hpc ⊢
    tauto
  | takeOut =>
    simp only [IndexPc.Names, mem_toFinset] at hpc ⊢
    tauto
  | readIndex | lostSettle | readPointer | readAll => exact hpc
  | _ => simp [IndexPc.Names]

variable [DecidableEq κ]

omit [DecidableEq K] in
lemma exists_owes_setPc (h : k ∈ s.indexed ∨ ∃ c, (s.calls c).Owes k)
    (hpc : (s.calls c).Owes k → k ∈ s.indexed ∨ pc.Owes k) :
    k ∈ s.indexed ∨ ∃ c', ((s.setPc c pc).calls c').Owes k := by
  obtain hmem | ⟨c', ho⟩ := h
  · exact .inl hmem
  obtain rfl | hc := eq_or_ne c' c
  · refine (hpc ho).imp_right fun h => ⟨c', ?_⟩
    simpa [setPc] using h
  · exact .inr ⟨c', by simpa [setPc, hc] using ho⟩

variable (h : s.Inv)
include h

lemma Inv.turn (ht : s.Turn (s.calls c) a pc) : (s.setPc c pc).Inv where
  writtenAt_le := h.writtenAt_le
  knows := forall_update (I := fun _ (pc' : IndexPc K T O) => (s.setPc c pc).Knows pc')
    (fun c' => (h.knows c').mono (.refl _) fun _ _ hseen => hseen)
    ((ht.knows h.writtenAt_le (h.knows c)).mono (.refl _) fun _ _ hseen => hseen)
  indexed k hk := exists_owes_setPc (h.indexed k hk) fun ho => ht.owes ho hk

lemma Inv.write {p : Pointer T O} (hpc : ∀ k, ¬(s.calls c).Owes k) :
    ((s.write k ((s.pointers k).push (some (some p)))).setPc c (added k)).Inv where
  writtenAt_le := forall_update (I := fun _ n => n ≤ s.writes + 1)
    (fun k' => Nat.le_succ_of_le (h.writtenAt_le k')) le_rfl
  knows := by
    refine forall_update (I := fun _ (pc' : IndexPc K T O) => Knows _ pc') (fun c' => ?_) rfl
    refine (h.knows c').mono (.refl _) fun k' seen hseen => hseen.push rfl fun k' hk' => ?_
    exact Function.update_of_ne hk' _ _
  indexed k' hk' := by
    obtain rfl | hk := eq_or_ne k' k
    · exact .inr ⟨c, by simp [setPc, added, IndexPc.Owes]⟩
    have ht : s.Standing k' := by simpa [Standing, IndexRun.write, setPc, hk] using hk'
    have ho := h.indexed k' ht
    exact exists_owes_setPc (s := s.write k ((s.pointers k).push (some (some p)))) ho
      fun hw => absurd hw (hpc k')

lemma Inv.delete (hpc : ∀ k, ¬(s.calls c).Owes k) (hkn : s.Knows pc) :
    ((s.delete k ((s.pointers k).push none)).setPc c pc).Inv where
  writtenAt_le := h.writtenAt_le
  knows := by
    refine forall_update (I := fun _ (pc' : IndexPc K T O) => Knows _ pc') (fun c' => ?_) ?_
    · exact (h.knows c').mono (.refl _) fun k' seen hseen => hseen.push rfl fun _ _ => rfl
    · exact hkn.mono (.refl _) fun k' seen hseen => hseen.push rfl fun _ _ => rfl
  indexed k' hk' := by
    obtain rfl | hk := eq_or_ne k' k
    · simp [Standing, IndexRun.delete, setPc] at hk'
    have ht : s.Standing k' := by simpa [Standing, IndexRun.delete, setPc, hk] using hk'
    have ho := h.indexed k' ht
    exact exists_owes_setPc (s := s.delete k ((s.pointers k).push none)) ho
      fun hw => absurd hw (hpc k')

omit [DecidableEq κ] in
lemma Inv.body_eq {rev : Option Nat}
    {body : IndexBody K} (hpc : s.calls c = .settling update after rev body)
    (hr : s.index.Fresh rev) :
    update.Fits after ∧ body.scopes = (s.indexed ∪ update.add) \ update.remove := by
  have hk := h.knows c
  rw [hpc] at hk
  obtain ⟨hi, held, hsa, rfl⟩ := hk
  refine ⟨hi, ?_⟩
  rw [← hsa.holds hr]
  rfl

lemma Inv.settle {rev : Option Nat}
    {body : IndexBody K} (hpc : s.calls c = .settling update after rev body)
    (hfr : s.index.Fresh rev) :
    ({ s with index := s.index.push (some body) }.setPc c (resumed after)).Inv where
  writtenAt_le := h.writtenAt_le
  knows := by
    refine forall_update (I := fun _ (pc' : IndexPc K T O) => Knows _ pc') (fun c' => ?_)
      (knows_resumed after)
    exact (h.knows c').mono (.push _ _) fun _ _ hseen => hseen
  indexed k hk := by
    obtain ⟨hfi, hb⟩ := h.body_eq hpc hfr
    have hi : ({ s with index := s.index.push (some body) } : IndexRun K T O κ).indexed =
        (s.indexed ∪ update.add) \ update.remove := hb
    refine exists_owes_setPc (s := { s with index := s.index.push (some body) }) ?_ fun ho => ?_
    · rw [hi]
      by_cases hr : k ∈ update.remove
      · -- the removal looks at the pointer again
        refine .inr ⟨c, ?_⟩
        cases after with
        | done => simp [show update.remove = ∅ from hfi] at hr
        | look =>
          rw [hfi.1, mem_toFinset] at hr
          exact hpc ▸ .inr hr
      obtain hmem | hw := h.indexed k hk
      · exact .inl (by simp [hmem, hr])
      · exact .inr hw
    rw [hi, resumed_owes_iff]
    rw [show ({ s with index := s.index.push (some body) } : IndexRun K T O κ).calls c =
      .settling update after rev body from hpc] at ho
    obtain ⟨hd, hr⟩ | ho := ho
    · exact .inl (by simp [hd, hr])
    · exact .inr ho

theorem Inv.step (hm : s.Moves c a s') : s'.Inv := by
  cases hm with
  | turn _ _ ht => exact h.turn ht
  | write _ _ hpc =>
    refine h.write fun k' => ?_
    rcases hpc with ⟨alw, rev, hpc⟩ | ⟨rev, hpc⟩ <;> simp [hpc, IndexPc.Owes]
  | delete _ _ _ _ _ _ hpc =>
    have hk := h.knows c
    rw [hpc] at hk
    refine h.delete (by simp [hpc, IndexPc.Owes]) ⟨hk.1, fun k' hk' => hk.2 k' ?_⟩
    simp only [mem_append, mem_cons, not_mem_nil, or_false] at hk' ⊢
    tauto
  | settle _ _ _ _ hpc hr => exact h.settle hpc hr

lemma Inv.loses (hm : s.Moves c a s') (k : K) :
    (s.Standing k → ¬s'.Standing k → ∃ left seen removed l3,
      s.calls c = .deleting (k :: left) seen removed l3 ∧ s.writtenAt k ≤ (seen k).writes ∧ k ∉
        l3) ∧ (k ∈ s.indexed → k ∉ s'.indexed → ∃ update removed l3 rev body,
      s.calls c = .settling update (.look removed l3) rev body ∧ k ∈ update.remove ∧
        k ∈ removed ∧ k ∉ l3) := by
  cases hm with
  | turn => exact ⟨fun hk hk' => absurd hk hk', fun hk hk' => absurd hk hk'⟩
  | write k' =>
    refine ⟨fun hk hk' => absurd ?_ hk', fun hk hk' => absurd hk hk'⟩
    obtain rfl | he := eq_or_ne k k'
    · simp [Standing, IndexRun.write, setPc]
    · simpa [Standing, IndexRun.write, setPc, he] using hk
  | delete k' left seen removed l3 rev hpc hseen hrevision =>
    refine ⟨fun hk hk' => ?_, fun hk hk' => absurd hk hk'⟩
    obtain rfl | he := eq_or_ne k k'
    · have hkn := h.knows c
      rw [hpc] at hkn
      obtain ⟨hpos, -, ht⟩ := hkn.1 k rev hseen
      refine ⟨left, seen, removed, l3, hpc, ht ?_, hkn.2 k (by simp)⟩
      exact hrevision.resolve_left (ne_of_gt hpos)
    · exact absurd (by simpa [Standing, IndexRun.delete, setPc, he] using hk) hk'
  | settle update after rev body hpc hfr =>
    refine ⟨fun hk hk' => absurd hk hk', fun hk hk' => ?_⟩
    obtain ⟨hi, hb⟩ := h.body_eq hpc hfr
    have hr : k ∈ update.remove := by
      by_contra hr
      refine hk' (?_ : k ∈ body.scopes)
      simp [hb, hk, hr]
    cases after with
    | done => simp [show update.remove = ∅ from hi] at hr
    | look removed l3 =>
      have hre : k ∈ removed := by
        rw [← mem_toFinset, ← hi.1]
        exact hr
      exact ⟨update, removed, l3, rev, body, hpc, hr, hre, hi.2 k hre⟩

omit h in
lemma not_names_of_moves (h : ∀ c, ¬(s.calls c).Names k) (hm : s.Moves c a s')
    (ha : ∀ candidates, a = .remove candidates → k ∉ candidates) (c' : κ) :
    ¬(s'.calls c').Names k := by
  have hown := h c
  revert c'
  cases hm with
  | turn _ pc ht =>
    exact forall_update (I := fun _ (pc : IndexPc K T O) => ¬pc.Names k) h (ht.names hown ha)
  | write =>
    exact forall_update (I := fun _ (pc : IndexPc K T O) => ¬pc.Names k) h
      (by simp [added, IndexPc.Names])
  | delete _ _ _ _ _ _ hpc =>
    rw [hpc] at hown
    refine forall_update (I := fun _ (pc : IndexPc K T O) => ¬pc.Names k) h ?_
    simp only [IndexPc.Names, mem_append, mem_cons, not_mem_nil, or_false] at hown ⊢
    tauto
  | settle _ after =>
    refine forall_update (I := fun _ (pc : IndexPc K T O) => ¬pc.Names k) h ?_
    cases after <;> simp [resumed, IndexPc.Names]

omit [DecidableEq κ] h in
lemma Inv.start {poi : K → KvKey (Option (Pointer T O))} {ind : KvKey (IndexBody K)}
    {l3 : Finset K} (h : ∀ k, (poi k).value.isSome → k ∈ ind.value.elim ∅ IndexBody.scopes) :
    (start poi ind l3 : IndexRun K T O κ).Inv where
  writtenAt_le _ := le_rfl
  knows _ := trivial
  indexed k hk := .inl (h k hk)

variable [Fintype T] [DecidableEq O] {e : IndexEvent K T O κ}

lemma Inv.event (ht : system.step s e = some s') : s'.Inv := by
  cases e with
  | call => exact h.step (moves_of_step ht)
  | l3 =>
    cases ht
    exact { h with knows := fun c => (h.knows c).mono (.refl _) fun _ _ hseen => hseen }

omit h

lemma not_names_of_event (h : ∀ c, ¬(s.calls c).Names k) (he : ¬e.Names k)
    (ht : system.step s e = some s') (c : κ) : ¬(s'.calls c).Names k := by
  cases e with
  | call =>
    refine not_names_of_moves h (moves_of_step ht) (fun candidates ha => ?_) c
    subst ha
    exact he
  | l3 =>
    cases ht
    exact h c

lemma mem_indexed_of_event (hi : s.Inv) (h : ∀ c, ¬(s.calls c).Names k)
    (ht : system.step s e = some s') (hk : k ∈ s.indexed) : k ∈ s'.indexed := by
  cases e with
  | call c =>
    by_contra hk'
    obtain ⟨update, removed, l3, rev, body, hpc, hr, -⟩ :=
      (hi.loses (moves_of_step ht) k).2 hk hk'
    have hna := h c
    rw [hpc] at hna
    exact hna hr
  | l3 =>
    cases ht
    exact hk

/-- Once every call has ended, every scope whose pointer stands is in the index. A removal deletes
only a pointer not written since it read it, and takes a scope away only if L3 did not hold it at
that read. A scope that no removal names stays. -/
theorem index_keeps_scopes {pointers : K → KvKey (Option (Pointer T O))}
    {index : KvKey (IndexBody K)} {l3 : Finset K} {events : List (IndexEvent K T O κ)}
    (hstart : ∀ k, (pointers k).value.isSome → k ∈ index.value.elim ∅ IndexBody.scopes)
    (hrun : system.run (IndexRun.start pointers index l3) events = some s) :
    ((∀ c, s.calls c = .idle) → ∀ k, s.Standing k → k ∈ s.indexed) ∧
    (∀ c a s', s.step c a = some s' → ∀ k, (s.Standing k → ¬s'.Standing k → ∃ left seen removed l3,
        s.calls c = .deleting (k :: left) seen removed l3 ∧ s.writtenAt k ≤ (seen k).writes ∧
          k ∉ l3) ∧ (k ∈ s.indexed → k ∉ s'.indexed → ∃ update removed l3 revision body,
        s.calls c = .settling update (.look removed l3) revision body ∧ k ∈ update.remove ∧
          k ∈ removed ∧ k ∉ l3)) ∧
    ∀ events' s', system.run s events' = some s' → ∀ k, (∀ e ∈ events ++ events', ¬e.Names k) →
      k ∈ s.indexed → k ∈ s'.indexed := by
  have hi : s.Inv :=
    StepSystem.run_invariant _ (I := Inv) (fun _ _ _ h ht => h.event ht) (.start hstart) hrun
  refine ⟨fun hidle k hk => ?_, fun c a s' ht => hi.loses (moves_of_step ht),
    fun events' s' hr' k hna hk => ?_⟩
  · obtain hmem | ⟨c, ho⟩ := hi.indexed k hk
    · exact hmem
    rw [hidle c] at ho
    exact ho.elim
  have hc : ∀ c, ¬(s.calls c).Names k := by
    refine StepSystem.run_invariant_mem _ (I := fun s => ∀ c, ¬(s.calls c).Names k)
      (fun s e he s' h ht => ?_) (fun c => id) hrun
    exact not_names_of_event h (hna e (mem_append_left _ he)) ht
  have hke : s'.Inv ∧ (∀ c, ¬(s'.calls c).Names k) ∧ k ∈ s'.indexed := by
    refine StepSystem.run_invariant_mem _
      (I := fun s => s.Inv ∧ (∀ c, ¬(s.calls c).Names k) ∧ k ∈ s.indexed)
      (fun s e he s' h ht => ?_) ⟨hi, hc, hk⟩ hr'
    have he := hna e (mem_append_right _ he)
    exact ⟨h.1.event ht, not_names_of_event h.2.1 he ht, mem_indexed_of_event h.1 h.2.1 ht h.2.2⟩
  exact hke.2.2

/-- Scope 7 is published and removed. Between the removal's delete and its change of the index it is
published again, which finds it still in the index. -/
def republished : List (IndexEvent Nat Unit Unit Bool) :=
  [(true, .publish 7 ⟨1, fun _ => ⟨(), 0, []⟩⟩ true), (true, .next), (true, .next), (true, .next),
    (true, .next), (false, .remove [7]), (false, .next), (false, .next), (false, .next),
    (false, .next), (true, .publish 7 ⟨2, fun _ => ⟨(), 0, []⟩⟩ true), (true, .next), (true, .next),
    (true, .next), (false, .next), (false, .next), (false, .next), (false, .next), (false, .next),
    (false, .next), (false, .next)].map fun a => .call a.1 a.2

theorem index_keeps_republished :
    ∃ s, system.run (IndexRun.start (fun _ => .empty) .empty ∅) republished = some s ∧
      (∀ c, s.calls c = .idle) ∧ (s.Standing 7 ∧ s.writes = 2 ∧ s.index.revision = 3) ∧
      7 ∈ s.indexed := by
  obtain ⟨s, hr, hidle, hs⟩ : ∃ s, system.run
      (start (fun _ => .empty) .empty ∅ : IndexRun Nat Unit Unit Bool) republished =
        some s ∧
      (∀ c, (s.calls c).ctorIdx = 0) ∧ s.Standing 7 ∧ s.writes = 2 ∧ s.index.revision = 3 :=
    StepSystem.exists_run_of_any _ rfl
  have hidle : ∀ c, s.calls c = .idle := by
    intro c
    have hc := hidle c
    cases hpc : s.calls c <;> simp [hpc, IndexPc.ctorIdx] at hc ⊢
  exact ⟨s, hr, hidle, hs, (index_keeps_scopes (by rintro k ⟨⟩) hr).1 hidle 7 hs.1⟩

end IndexRun

end ThreeTears
