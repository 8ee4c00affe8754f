import ThreeTears.Collections.CallerTransaction

/-!
# What a settled transaction announces

A table whose generation is kept by a source is advanced once however many of its instances wrote,
and each message says how many rows of the table the transaction wrote. A table whose generation is
kept in L2 is advanced by each instance, for its own rows. A rollback makes no difference.
-/

namespace ThreeTears

open List Dict CallerTransaction Event

namespace CallerTransaction

variable {ι Key : Type*}

section

variable [DecidableEq ι]

def Event.makes (advance : Advance ι) : Event ι Key → Bool
  | .advanced a _ => a = advance
  | _ => false

end

def Names (call : Nat) (generation : Option Stamp) : Bool := generation.any (·.call = call)

lemma names_iff {call : Nat} {gen : Option Stamp} :
    Names call gen ↔ ∃ stamp, gen = some stamp ∧ stamp.call = call := by
  cases gen <;> simp [Names]

def Event.carries (call : Nat) : Event ι Key → Bool
  | .published m => Names call m.generation
  | _ => false

def Write.enrolls (p : ι → Bool) : Write ι Key → Bool
  | .enroll c _ _ => p c
  | .restate .. => false

/-! ### Enrolling -/

section

variable [DecidableEq ι] [DecidableEq Key]

lemma restateLatest_collections (c : ι) (k : Key) (row : Row) (es : List (Enrolled ι Key)) :
    (restateLatest c k row es).map Enrolled.collection = es.map Enrolled.collection := by
  induction es with
  | nil => rfl
  | cons _ _ ih =>
    simp only [restateLatest]
    split_ifs with he
    · simp [he.1]
    · simp [ih]

lemma restate_collections (es : List (Enrolled ι Key)) (c : ι) (k : Key) (row : Row) :
    (restate es c k row).map Enrolled.collection = es.map Enrolled.collection := by
  rw [restate, map_reverse, restateLatest_collections, map_reverse, reverse_reverse]

lemma countP_write (p : ι → Bool) (es : List (Enrolled ι Key)) (write : Write ι Key) :
    (CallerTransaction.write es write).countP (fun e => p e.collection) =
      es.countP (fun e => p e.collection) + [write].countP (Write.enrolls p) := by
  have hm : ∀ es : List (Enrolled ι Key),
      es.countP (fun e => p e.collection) = (es.map Enrolled.collection).countP p := fun es => by
    rw [countP_map]
    rfl
  cases write with
  | enroll =>
    rw [write, countP_append, countP_singleton, countP_singleton]
    rfl
  | restate =>
    rw [write, hm, hm, restate_collections, countP_singleton]
    simp [Write.enrolls]

lemma countP_enrolledBy (p : ι → Bool) (body : List (Write ι Key)) :
    (enrolledBy body).countP (fun e => p e.collection) = body.countP (Write.enrolls p) := by
  induction body using List.reverseRecOn with
  | nil => rfl
  | append_singleton _ _ ih =>
    rw [enrolledBy, foldl_append, countP_append, ← ih, ← countP_write]
    rfl

end

/-! ### One advance's rows -/

section

variable [DecidableEq ι] (w : World) (cols : ι → CollectionInstance)

def covers (c : ι) : Advance ι → Bool
  | .source table => (cols c).writeGenerationOn && (cols c).tableName = table
  | .l2 c' => (cols c).keepsWriteGenerationInL2 && c = c'

def counts (c : ι) : Advance ι → Bool
  | .source table => (cols c).tableName = table
  | .l2 c' => c = c'

def Stamps (call : Nat) : Advance ι → Prop
  | .source _ => ∃ token, token ≠ [] ∧ w.answer call = .token token
  | .l2 _ => ∃ token, w.l2Answer call = some token

variable {w cols} {c : ι} {a a' : Advance ι}

lemma counts_of_covers (h : covers cols c a) : counts cols c a := by
  cases a <;> simp_all [covers, counts]

lemma covers_unique (h : covers cols c a) (h' : covers cols c a') : a = a' := by
  have hk : ¬((cols c).writeGenerationOn ∧ (cols c).keepsWriteGenerationInL2) := by
    simp only [CollectionInstance.writeGenerationOn, CollectionInstance.keepsWriteGenerationInL2,
      Bool.and_eq_true, decide_eq_true_eq]
    rintro ⟨⟨⟨h, -⟩, -⟩, h', -⟩
    cases h.symm.trans h'
  simp only [not_and, Bool.not_eq_true] at hk
  cases a <;> cases a' <;> simp only [covers, Bool.and_eq_true, decide_eq_true_eq] at h h'
  case source.source => rw [← h.2, ← h'.2]
  case source.l2 => cases (hk h.1).symm.trans h'.1
  case l2.source => cases (hk h'.1).symm.trans h.1
  case l2.l2 => rw [← h.2, ← h'.2]

variable (w) in
structure BumpOf (a : Advance ι) (bump : Bump) (call rows : Nat) : Prop where
  token : ∀ stamp, bump.token = some stamp → stamp.call = call ∧ bump.rows = some rows
  stamps : Stamps w call a → bump.token.isSome

omit [DecidableEq ι] in
lemma bumpOf_commitBump (tab : Text) (i : CollectionInstance) (call rows : Nat) :
    BumpOf w (.source tab : Advance ι) (commitBump i call rows (w.answer call)) call rows where
  token stamp h := by
    cases han : w.answer call with
    | token =>
      rw [han, commitBump] at h
      rw [commitBump]
      split_ifs at h ⊢ <;> cases h
      exact ⟨rfl, rfl⟩
    | nothing =>
      rw [han, commitBump] at h
      split_ifs at h
      cases h
    | notCommitted | unavailable => rw [han] at h; cases h
  stamps := by
    rintro ⟨token, ht, ha⟩
    rw [ha, commitBump, if_neg ht]
    rfl

omit [DecidableEq ι] in
lemma bumpOf_l2Bump (c : ι) (call rows : Nat) :
    BumpOf w (.l2 c) (l2Bump call rows (w.l2Answer call)) call rows where
  token stamp h := by
    cases han : w.l2Answer call with
    | some =>
      rw [han] at h
      cases h
      exact ⟨rfl, rfl⟩
    | none => rw [han] at h; cases h
  stamps := by
    rintro ⟨token, ha⟩
    rw [ha]
    rfl

end

/-! ### Messages -/

section

variable {w : World} {i : CollectionInstance} {bump : Bump}

/-- The events of one call of `invalidate_cache_many` past its advance. -/
structure Announced (w : World) (i : CollectionInstance) (bump : Bump) (rows : Nat)
    (events : List (Event ι Key)) : Prop where
  not_advanced : ∀ a n, .advanced a n ∉ events
  message : ∀ m, .published m ∈ events →
    m.tableName = i.tableName ∧ m.generation = bump.token ∧ m.bumpRows = bump.rows
  le : ∀ n, events.countP (Event.carries n) ≤ if Names n bump.token then rows else 0
  eq : (∀ k, w.sends k) → ∀ n,
    events.countP (Event.carries n) = if Names n bump.token then rows else 0

lemma Announced.nil : Announced w i bump 0 ([] : List (Event ι Key)) where
  not_advanced _ _ h := by cases h
  message _ h := by cases h
  le n := by simp
  eq _ n := by simp

lemma countP_carries_message (n : Nat) (e : Enrolled ι Key) :
    [(.published (rowMessage i bump e) : Event ι Key)].countP (carries n) =
      if Names n bump.token then 1 else 0 := countP_singleton

lemma Announced.of_announceRow (sent : Bool) (he : (∀ k, w.sends k) → sent)
    (e : Enrolled ι Key) : Announced w i bump 1 (.deletedL2 e.collection e.entityId ::
      if sent then [.published (rowMessage i bump e)] else []) where
  not_advanced a n h := by cases sent <;> simp at h
  message m h := by
    cases sent
    · simp at h
    obtain rfl : m = rowMessage i bump e := by simpa using h
    exact ⟨rfl, rfl, rfl⟩
  le n := by
    cases sent
    · simp [carries]
    · rw [if_pos rfl, countP_cons_of_neg (by simp [carries]), countP_carries_message]
  eq hl n := by
    rw [he hl, if_pos rfl, countP_cons_of_neg (by simp [carries]), countP_carries_message]

lemma Announced.append {rows rows' : Nat} {eve eve' : List (Event ι Key)}
    (h : Announced w i bump rows eve) (h' : Announced w i bump rows' eve') :
    Announced w i bump (rows + rows') (eve ++ eve') where
  not_advanced a n hmem := (mem_append.1 hmem).elim (h.not_advanced a n) (h'.not_advanced a n)
  message m hmem := (mem_append.1 hmem).elim (h.message m) (h'.message m)
  le n := by
    have hle := h.le n
    have hl' := h'.le n
    rw [countP_append]
    split_ifs at hle hl' ⊢ <;> omega
  eq hl n := by
    rw [countP_append, h.eq hl, h'.eq hl]
    split_ifs <;> rfl

variable (w i bump) in
lemma exists_announced (keys : List (Enrolled ι Key)) (s : Settling ι Key) :
    ∃ eve, Announced w i bump keys.length eve ∧ keys.foldl (announceRow w i bump) s =
        { s with publishes := s.publishes + keys.length, log := s.log ++ eve } := by
  induction keys generalizing s with
  | nil => exact ⟨[], .nil, by simp⟩
  | cons e keys ih =>
    obtain ⟨eve, he, ho⟩ := ih (announceRow w i bump s e)
    have hrow : Announced w i bump 1 (.deletedL2 e.collection e.entityId ::
        if w.sends s.publishes then [.published (rowMessage i bump e)] else []) :=
      .of_announceRow (w.sends s.publishes) (fun h => h s.publishes) e
    refine ⟨_, Nat.add_comm 1 keys.length ▸ hrow.append he, ?_⟩
    rw [foldl_cons, ho, announceRow]
    simp only [length_cons, append_assoc]
    rw [Nat.add_right_comm, Nat.add_assoc s.publishes]

end

/-! ### Advances over a run of instances -/

section

variable [DecidableEq ι] (w : World) (cols : ι → CollectionInstance)
  (groups : List (ι × List (Enrolled ι Key)))

def rowsOf (a : Advance ι) : Nat := Dict.size (counts cols · a) groups

/-- The advances made once the instances `asked` have settled. -/
structure Asked (asked : List (ι × List (Enrolled ι Key))) (s : Settling ι Key) : Prop where
  lt : ∀ {a n}, .advanced a n ∈ s.log → n < s.calls
  unique : ∀ {a a' n}, .advanced a n ∈ s.log → .advanced a' n ∈ s.log → a = a'
  same : ∀ {a n n'}, .advanced a n ∈ s.log → .advanced a n' ∈ s.log → n = n'
  once : ∀ a, s.log.countP (Event.makes a) = if ∃ g ∈ asked, covers cols g.1 a then 1 else 0

/-- The shared advances once the instances `asked` have settled. -/
structure Shares (asked : List (ι × List (Enrolled ι Key))) (s : Settling ι Key) : Prop where
  rows : ∀ {t shared}, s.shared t = some shared → shared.rows = rowsOf cols groups (.source t)
  first : ∀ {t shared}, s.shared t = some shared → shared.bump = none →
    ∀ g ∈ asked, covers cols g.1 (.source t) = false
  later : ∀ {t shared bump}, s.shared t = some shared → shared.bump = some bump →
    ∃ n, .advanced (.source t) n ∈ s.log ∧
      BumpOf w (.source t : Advance ι) bump n (rowsOf cols groups (.source t))
  alone : ∀ {t}, s.shared t = none → groups.countP (fun g => counts cols g.1 (.source t)) ≤ 1

/-- The messages published once the instances `announced` have settled. -/
structure Carried (announced : List (ι × List (Enrolled ι Key))) (s : Settling ι Key) : Prop where
  lt : ∀ {m n}, .published m ∈ s.log → Names n m.generation → n < s.calls
  stamped : ∀ {a n m}, .advanced a n ∈ s.log → .published m ∈ s.log → Names n m.generation →
    (∃ c, covers cols c a ∧ m.tableName = (cols c).tableName) ∧
      m.bumpRows = some (rowsOf cols groups a)
  le : ∀ {a n}, .advanced a n ∈ s.log →
    s.log.countP (Event.carries n) ≤ Dict.size (covers cols · a) announced
  eq : ∀ {a n}, .advanced a n ∈ s.log → (∀ k, w.sends k) → Stamps w n a →
    s.log.countP (Event.carries n) =
      Dict.size (fun c => covers cols c a && (cols c).hasClient) announced

variable {w cols groups} {asked rest : List (ι × List (Enrolled ι Key))} {s s' : Settling ι Key}
  {g : ι × List (Enrolled ι Key)} {a : Advance ι} {bump : Bump}

omit [DecidableEq ι] in
lemma exists_mem_concat {p : ι × List (Enrolled ι Key) → Prop} :
    (∃ g' ∈ asked ++ [g], p g') ↔ (∃ g' ∈ asked, p g') ∨ p g := by
  simp

variable (h : Asked cols asked s)
include h

lemma Asked.not_mem (hnew : ∀ g ∈ asked, covers cols g.1 a = false)
    (n : Nat) : .advanced a n ∉ s.log := by
  intro hmem
  have ho := h.once a
  rw [if_neg fun ⟨g, hg, hcov⟩ => Bool.false_ne_true ((hnew g hg).symm.trans hcov)] at ho
  exact countP_eq_zero.1 ho _ hmem (by simp [makes])

lemma Asked.ask (hcov : covers cols g.1 a)
    (hnew : ∀ g ∈ asked, covers cols g.1 a = false) (hc : s'.calls = s.calls + 1)
    (hl : s'.log = s.log ++ [.advanced a s.calls]) : Asked cols (asked ++ [g]) s' where
  lt hmem := by
    rw [hl, mem_append, mem_singleton] at hmem
    rw [hc]
    rcases hmem with hmem | he
    · exact Nat.lt_succ_of_lt (h.lt hmem)
    cases he
    exact Nat.lt_succ_self _
  unique hmem hm' := by
    rw [hl, mem_append, mem_singleton] at hmem hm'
    rcases hmem with hmem | he <;> obtain hm' | he' := hm'
    · exact h.unique hmem hm'
    · cases he'
      exact absurd (h.lt hmem) (lt_irrefl _)
    · cases he
      exact absurd (h.lt hm') (lt_irrefl _)
    cases he
    cases he'
    rfl
  same hmem hm' := by
    rw [hl, mem_append, mem_singleton] at hmem hm'
    rcases hmem with hmem | he <;> obtain hm' | he' := hm'
    · exact h.same hmem hm'
    · cases he'
      exact absurd hmem (h.not_mem hnew _)
    · cases he
      exact absurd hm' (h.not_mem hnew _)
    cases he
    cases he'
    rfl
  once a' := by
    rw [hl, countP_append, countP_singleton, h.once]
    rcases eq_or_ne a a' with rfl | ha
    · have hnone : ¬∃ g ∈ asked, covers cols g.1 a = true := fun ⟨g, hg, hcov⟩ =>
        Bool.false_ne_true ((hnew g hg).symm.trans hcov)
      have hsome : ∃ g' ∈ asked ++ [g], covers cols g'.1 a = true :=
        ⟨g, mem_append_right _ (mem_singleton_self g), hcov⟩
      rw [if_neg hnone, if_pos hsome]
      simp [makes]
    have ho : covers cols g.1 a' = false :=
      Bool.eq_false_iff.2 fun hc' => ha (covers_unique hcov hc')
    have hm : makes a' (.advanced a s.calls : Event ι Key) = false := by simp [makes, ha]
    rw [hm, if_neg Bool.false_ne_true, Nat.add_zero]
    refine if_congr ?_ rfl rfl
    rw [exists_mem_concat, ho]
    simp

lemma Asked.skip (hcov : ∀ a, covers cols g.1 a → ∃ g' ∈ asked, covers cols g'.1 a) :
    Asked cols (asked ++ [g]) s where
  __ := h
  once a := by
    rw [h.once]
    refine if_congr ?_ rfl rfl
    rw [exists_mem_concat]
    exact ⟨.inl, fun h => h.elim id (hcov a)⟩

omit h

lemma Shares.keep (h : Shares w cols groups asked s) (hh : s'.shared = s.shared)
    (hl : ∀ {e}, e ∈ s.log → e ∈ s'.log)
    (hfirst : ∀ {t sha}, s.shared t = some sha → sha.bump = none →
      covers cols g.1 (.source t) = false) : Shares w cols groups (asked ++ [g]) s' where
  rows ht := h.rows (hh ▸ ht)
  first ht hbump g' hg' := by
    rw [hh] at ht
    rcases mem_append.1 hg' with hg' | hg'
    · exact h.first ht hbump g' hg'
    rw [mem_singleton.1 hg']
    exact hfirst ht hbump
  later ht hbump := by
    obtain ⟨n, hn, hof⟩ := h.later (hh ▸ ht) hbump
    exact ⟨n, hl hn, hof⟩
  alone ht := h.alone (hh ▸ ht)

lemma Shares.advance {t : Text} {sha : SharedAdvance} {n : Nat}
    (h : Shares w cols groups asked s) (ht : s.shared t = some sha)
    (hcov : covers cols g.1 (.source t))
    (hh : s'.shared = Function.update s.shared t (some { sha with bump := some bump }))
    (hl : ∀ {e}, e ∈ s.log → e ∈ s'.log) (hmem : .advanced (.source t) n ∈ s'.log)
    (hof : BumpOf w (.source t : Advance ι) bump n (rowsOf cols groups (.source t))) :
    Shares w cols groups (asked ++ [g]) s' := by
  have ho : ∀ {t'}, t' ≠ t → s'.shared t' = s.shared t' := fun he => by
    rw [hh, Function.update_of_ne he]
  have hse : s'.shared t = some { sha with bump := some bump } := by
    rw [hh, Function.update_self]
  refine ⟨fun {t' _} ht' => ?_, fun {t' _} ht' hbump g' hg' => ?_,
    fun {t' _ _} ht' hbump => ?_, fun {t'} ht' => ?_⟩ <;> by_cases he : t' = t
  · subst he
    rw [hse] at ht'
    cases ht'
    show sha.rows = _
    exact h.rows ht
  · exact h.rows (ho he ▸ ht')
  · subst he
    rw [hse] at ht'
    cases ht'
    cases hbump
  · rw [ho he] at ht'
    rcases mem_append.1 hg' with hg' | hg'
    · exact h.first ht' hbump g' hg'
    rw [mem_singleton.1 hg', Bool.eq_false_iff]
    intro hc'
    cases covers_unique hcov hc'
    exact he rfl
  · subst he
    rw [hse] at ht'
    cases ht'
    cases hbump
    exact ⟨n, hmem, hof⟩
  · obtain ⟨n', hn', ho'⟩ := h.later (ho he ▸ ht') hbump
    exact ⟨n', hl hn', ho'⟩
  · subst he
    cases hse.symm.trans ht'
  · exact h.alone (ho he ▸ ht')

lemma Carried.ask (h : Carried w cols groups asked s)
    (hnew : ∀ g ∈ asked, covers cols g.1 a = false) (hcs : s'.calls = s.calls + 1)
    (hl : s'.log = s.log ++ [.advanced a s.calls]) : Carried w cols groups asked s' := by
  have hu : ∀ {m}, .published m ∈ s'.log → .published m ∈ s.log := fun {m} hm => by
    rw [hl] at hm
    simpa using hm
  have hc : ∀ n, s'.log.countP (carries n) = s.log.countP (carries n) :=
    fun n => by
      rw [hl, countP_append, countP_singleton]
      simp [carries]
  have hz : s'.log.countP (carries s.calls) = 0 := by
    rw [hc, countP_eq_zero]
    intro e he hca
    cases e with
    | published => exact absurd (h.lt he hca) (lt_irrefl _)
    | advanced | deletedL2 => simp [carries] at hca
  have hmem : ∀ {a' n}, .advanced a' n ∈ s'.log →
      .advanced a' n ∈ s.log ∨ a' = a ∧ n = s.calls := fun {a' n} hm => by
    rw [hl] at hm
    simpa using hm
  refine ⟨fun hm hn => ?_, fun ha hm hn => ?_, fun ha => ?_, fun ha hse ht => ?_⟩
  · exact hcs ▸ Nat.lt_succ_of_lt (h.lt (hu hm) hn)
  · rcases hmem ha with ha | ⟨rfl, rfl⟩
    · exact h.stamped ha (hu hm) hn
    · exact absurd (h.lt (hu hm) hn) (lt_irrefl _)
  · rcases hmem ha with ha | ⟨rfl, rfl⟩
    · exact (hc _).le.trans (h.le ha)
    · exact hz.le.trans (Nat.zero_le _)
  rcases hmem ha with ha | ⟨rfl, rfl⟩
  · exact (hc _).trans (h.eq ha hse ht)
  rw [hz, size_eq_zero]
  intro g hg
  simp [hnew g hg]

inductive Stamped (w : World) (cols : ι → CollectionInstance)
    (groups : List (ι × List (Enrolled ι Key))) (c : ι) (log : List (Event ι Key)) (bump : Bump) :
    Prop
  | off (hcov : ∀ a, covers cols c a = false) (hbump : bump.token = none)
  | on {a : Advance ι} {n : Nat} (hcov : covers cols c a) (hmem : .advanced a n ∈ log)
    (hof : BumpOf w a bump n (rowsOf cols groups a))

structure Settled (w : World) (cols : ι → CollectionInstance)
    (groups done : List (ι × List (Enrolled ι Key))) (s : Settling ι Key) : Prop where
  asked : Asked cols done s
  shares : Shares w cols groups done s
  carried : Carried w cols groups done s

lemma covers_false_of_off (hl2 : ¬(cols g.1).keepsWriteGenerationInL2)
    (ho : ¬(cols g.1).writeGenerationOn) (a : Advance ι) : covers cols g.1 a = false := by
  cases a <;> simp [covers, hl2, ho]

variable (hsplit : groups = asked ++ g :: rest)
include hsplit

lemma covers_of_alone (hcov : covers cols g.1 a)
    (ho : ∀ g' ∈ asked ++ rest, counts cols g'.1 a = false) :
    (∀ g' ∈ asked, covers cols g'.1 a = false) ∧ rowsOf cols groups a = g.2.length := by
  constructor
  · intro g' hg'
    refine Bool.eq_false_iff.2 fun hc' => ?_
    have hc := ho g' (mem_append_left _ hg')
    rw [counts_of_covers hc'] at hc
    cases hc
  rw [rowsOf, hsplit]
  exact size_eq_length (p := fun c => counts cols c a) (counts_of_covers hcov) ho

lemma counts_l2_others (ho : (groups.map Prod.fst).Nodup) :
    ∀ g' ∈ asked ++ rest, counts cols g'.1 (.l2 g.1) = false := by
  intro g' hg'
  rw [hsplit, map_append, map_cons, nodup_middle, nodup_cons, ← map_append] at ho
  simp only [counts, decide_eq_false_iff_not]
  exact fun he => ho.1 (he ▸ mem_map_of_mem hg')

lemma counts_source_others {t : Text} (hc : counts cols g.1 (.source t))
    (hl : groups.countP (fun g => counts cols g.1 (.source t)) ≤ 1) :
    ∀ g' ∈ asked ++ rest, counts cols g'.1 (.source t) = false := by
  have hz : (asked ++ rest).countP (fun g => counts cols g.1 (.source t)) = 0 := by
    rw [hsplit, countP_append, countP_cons, if_pos hc] at hl
    rw [countP_append]
    omega
  intro g' hg'
  exact Bool.eq_false_iff.2 (countP_eq_zero.1 hz g' hg')

omit hsplit

lemma Settled.bumpGeneration (h : Settled w cols groups asked s)
    (hsplit : groups = asked ++ g :: rest) (hno : (groups.map Prod.fst).Nodup) (hne : g.2 ≠ []) :
    let bumped := CallerTransaction.bumpGeneration w g.1 (cols g.1) g.2.length s
    Asked cols (asked ++ [g]) bumped.2 ∧ Shares w cols groups (asked ++ [g]) bumped.2 ∧
      Carried w cols groups asked bumped.2 ∧ Stamped w cols groups g.1 bumped.2.log bumped.1 := by
  have hpos : 1 ≤ g.2.length := length_pos_iff.2 hne
  have hmem : ∀ {s' : Settling ι Key} {e}, s'.log = s.log ++ [e] → e ∈ s'.log :=
    fun hl => by rw [hl]; simp
  have hk : ∀ {s' : Settling ι Key} {e e'}, s'.log = s.log ++ [e] → e' ∈ s.log → e' ∈ s'.log :=
    fun hl he => by rw [hl]; exact mem_append_left _ he
  simp only [CallerTransaction.bumpGeneration, hpos, and_true, not_lt.2 hpos, or_false]
  split_ifs with hl2 hon
  · -- the generation is kept in L2: the instance advances for its own rows
    have hcov : covers cols g.1 (.l2 g.1) := by simp [covers, hl2]
    obtain ⟨hnew, hr⟩ := covers_of_alone hsplit hcov (counts_l2_others hsplit hno)
    refine ⟨h.asked.ask hcov hnew rfl rfl, h.shares.keep rfl (hk rfl) fun _ _ => ?_,
      h.carried.ask hnew rfl rfl, .on hcov (hmem rfl) (hr ▸ bumpOf_l2Bump _ _ _)⟩
    exact Bool.eq_false_iff.2 fun hc' => by cases covers_unique hcov hc'
  · have hcov : covers cols g.1 (.source (cols g.1).tableName) := by simp [covers, hon]
    have hse : ∀ {t}, covers cols g.1 (.source t) → t = (cols g.1).tableName := fun hc' => by
      cases covers_unique hcov hc'
      rfl
    cases hh : s.shared (cols g.1).tableName with
    | none =>
      obtain ⟨hnew, hr⟩ := covers_of_alone hsplit hcov
        (counts_source_others hsplit (counts_of_covers hcov) (h.shares.alone hh))
      refine ⟨h.asked.ask hcov hnew rfl rfl, h.shares.keep rfl (hk rfl) fun ht _ => ?_,
        h.carried.ask hnew rfl rfl, .on hcov (hmem rfl) (hr ▸ bumpOf_commitBump _ _ _ _)⟩
      refine Bool.eq_false_iff.2 fun hc' => ?_
      rw [hse hc', hh] at ht
      cases ht
    | some sha =>
      cases hbump : sha.bump with
      | some =>
        obtain ⟨n, hn, hof⟩ := h.shares.later hh hbump
        simp only [hbump]
        refine ⟨h.asked.skip fun a hc' => ?_, h.shares.keep rfl id fun ht hnone => ?_,
          h.carried, .on hcov hn hof⟩
        · cases covers_unique hcov hc'
          by_contra hnt
          refine h.asked.not_mem (fun g' hg' => ?_) n hn
          exact Bool.eq_false_iff.2 fun hc' => hnt ⟨g', hg', hc'⟩
        refine Bool.eq_false_iff.2 fun hc' => ?_
        rw [hse hc', hh] at ht
        cases ht
        cases hbump.symm.trans hnone
      | none =>
        have hnew := h.shares.first hh hbump
        have hof : BumpOf w (.source (cols g.1).tableName : Advance ι) _ s.calls sha.rows :=
          bumpOf_commitBump (cols g.1).tableName (cols g.1) s.calls sha.rows
        have hr := h.shares.rows hh
        simp only [hbump]
        exact ⟨h.asked.ask hcov hnew rfl rfl,
          h.shares.advance hh hcov rfl (hk rfl) (hmem rfl) (hr ▸ hof),
          h.carried.ask hnew rfl rfl, .on hcov (hmem rfl) (hr ▸ hof)⟩
  have ho := covers_false_of_off hl2 hon
  refine ⟨h.asked.skip fun a hcov => ?_, h.shares.keep rfl id fun _ _ => ho _, h.carried,
    .off ho rfl⟩
  rw [ho] at hcov
  cases hcov

/-! ### One instance after the other -/

lemma Stamped.of_names {n : Nat} (h : Stamped w cols groups g.1 s.log bump)
    (has : Asked cols asked s) (hmem : .advanced a n ∈ s.log) (hna : Names n bump.token) :
    covers cols g.1 a ∧ bump.rows = some (rowsOf cols groups a) := by
  obtain ⟨stamp, ht, rfl⟩ := names_iff.1 hna
  cases h with
  | off _ hnone => cases hnone.symm.trans ht
  | on hcov hm' hof =>
    obtain ⟨hcall, hr⟩ := hof.token stamp ht
    cases has.unique hmem (hcall ▸ hm')
    exact ⟨hcov, hr⟩

lemma Stamped.names {n : Nat} (h : Stamped w cols groups g.1 s.log bump)
    (has : Asked cols asked s) (hmem : .advanced a n ∈ s.log) (hcov : covers cols g.1 a)
    (hst : Stamps w n a) : Names n bump.token := by
  cases h with
  | off ho =>
    rw [ho] at hcov
    cases hcov
  | on hc' hm' hof =>
    cases covers_unique hcov hc'
    cases has.same hmem hm'
    obtain ⟨stamp, ht⟩ := Option.isSome_iff_exists.1 (hof.stamps hst)
    exact names_iff.2 ⟨stamp, ht, (hof.token stamp ht).1⟩

lemma Carried.silent (h : Carried w cols groups asked s) (hc : (cols g.1).hasClient = false) :
    Carried w cols groups (asked ++ [g]) s where
  __ := h
  le ha := by
    rw [size_append]
    exact (h.le ha).trans (Nat.le_add_right _ _)
  eq ha he ht := by
    rw [size_append, h.eq ha he ht, size_singleton, hc]
    simp

lemma Carried.announce {ask' : List (ι × List (Enrolled ι Key))} {events : List (Event ι Key)}
    (h : Carried w cols groups asked s) (has : Asked cols ask' s)
    (hst : Stamped w cols groups g.1 s.log bump) (hc : (cols g.1).hasClient)
    (he : Announced w (cols g.1) bump g.2.length events) (hcs : s'.calls = s.calls)
    (hl : s'.log = s.log ++ events) : Carried w cols groups (asked ++ [g]) s' := by
  have hd : ∀ {a n}, .advanced a n ∈ s'.log → .advanced a n ∈ s.log := fun {a n} hm => by
    rw [hl, mem_append] at hm
    exact hm.resolve_right (he.not_advanced a n)
  have hu : ∀ {m}, .published m ∈ s'.log → .published m ∈ s.log ∨
      .published m ∈ events := fun {m} hm => by rwa [hl, mem_append] at hm
  have hlt : ∀ {n}, Names n bump.token → n < s.calls := fun {n} hna => by
    obtain ⟨stamp, ht, rfl⟩ := names_iff.1 hna
    cases hst with
    | off _ hnone => cases hnone.symm.trans ht
    | on _ hmem hof => exact (hof.token stamp ht).1 ▸ has.lt hmem
  refine ⟨fun hm hna => ?_, fun ha hm hna => ?_, fun {a n} ha => ?_, fun {a n} ha hse hsa => ?_⟩
  · rw [hcs]
    rcases hu hm with hm | hm
    · exact h.lt hm hna
    rw [(he.message _ hm).2.1] at hna
    exact hlt hna
  · rcases hu hm with hm | hm
    · exact h.stamped (hd ha) hm hna
    obtain ⟨hta, hg, hr⟩ := he.message _ hm
    rw [hg] at hna
    obtain ⟨hcov, hbump⟩ := hst.of_names has (hd ha) hna
    exact ⟨⟨_, hcov, hta⟩, hr.trans hbump⟩
  · rw [hl, countP_append, size_append, size_singleton]
    refine Nat.add_le_add (h.le (hd ha)) ((he.le n).trans ?_)
    by_cases hna : Names n bump.token = true
    · rw [if_pos hna, if_pos (hst.of_names has (hd ha) hna).1]
    rw [if_neg hna]
    exact Nat.zero_le _
  rw [hl, countP_append, size_append, size_singleton,
    h.eq (hd ha) hse hsa, he.eq hse, hc, Bool.and_true]
  refine congrArg _ (if_congr ⟨fun hna => ?_, fun hcov => ?_⟩ rfl rfl)
  · exact (hst.of_names has (hd ha) hna).1
  · exact hst.names has (hd ha) hcov hsa

lemma Asked.append {eve : List (Event ι Key)} (h : Asked cols asked s)
    (hev : ∀ a n, .advanced a n ∉ eve) (hc : s'.calls = s.calls)
    (hl : s'.log = s.log ++ eve) : Asked cols asked s' := by
  have hd : ∀ {a n}, .advanced a n ∈ s'.log → .advanced a n ∈ s.log := fun {a n} hm => by
    rw [hl, mem_append] at hm
    exact hm.resolve_right (hev a n)
  refine ⟨fun hm => hc ▸ h.lt (hd hm), fun hm hm' => h.unique (hd hm) (hd hm'),
    fun hm hm' => h.same (hd hm) (hd hm'), fun a => ?_⟩
  have hnone : eve.countP (makes a) = 0 := countP_eq_zero.2 fun e he hma => by
    cases e with
    | advanced a' n => exact hev a' n he
    | published | deletedL2 => simp [makes] at hma
  rw [hl, countP_append, hnone, h.once, Nat.add_zero]

lemma Shares.append (h : Shares w cols groups asked s) (hh : s'.shared = s.shared)
    (hl : ∀ {e}, e ∈ s.log → e ∈ s'.log) : Shares w cols groups asked s' where
  rows ht := h.rows (hh ▸ ht)
  first ht := h.first (hh ▸ ht)
  later ht hbump := by
    obtain ⟨n, hn, hof⟩ := h.later (hh ▸ ht) hbump
    exact ⟨n, hl hn, hof⟩
  alone ht := h.alone (hh ▸ ht)

lemma Settled.settleOne {fai : Option Failure} (h : Settled w cols groups asked s)
    (hsplit : groups = asked ++ g :: rest) (ho : (groups.map Prod.fst).Nodup) (hne : g.2 ≠ []) :
    Settled w cols groups (asked ++ [g]) (CallerTransaction.settleOne w cols (fai, s) g).2 := by
  obtain ⟨has, hh, hc, ht⟩ := h.bumpGeneration hsplit ho hne
  simp only [CallerTransaction.settleOne, invalidateCacheMany, if_neg hne]
  split_ifs with hl
  · obtain ⟨eve, he, hfo⟩ := exists_announced w (cols g.1)
      (CallerTransaction.bumpGeneration w g.1 (cols g.1) g.2.length s).1 g.2
      (CallerTransaction.bumpGeneration w g.1 (cols g.1) g.2.length s).2
    rw [hfo]
    exact ⟨has.append he.not_advanced rfl rfl, hh.append rfl (mem_append_left _),
      hc.announce has ht hl he rfl rfl⟩
  · exact ⟨has, hh, hc.silent (Bool.eq_false_iff.2 hl)⟩

lemma Settled.foldl {fai : Option Failure} (h : Settled w cols groups asked s)
    (hsplit : groups = asked ++ rest) (ho : (groups.map Prod.fst).Nodup)
    (he : ∀ g ∈ groups, g.2 ≠ []) : Settled w cols groups groups
      (rest.foldl (CallerTransaction.settleOne w cols) (fai, s)).2 := by
  induction rest generalizing asked s fai with
  | nil =>
    rw [append_nil] at hsplit
    exact hsplit ▸ h
  | cons g _ ih =>
    have hg : g ∈ groups := by
      rw [hsplit]
      simp
    exact ih (h.settleOne hsplit ho (he g hg)) (by rw [hsplit]; simp)

omit [DecidableEq ι] in
lemma sum_counts (p : ι → Bool) (groups : List (ι × List (Enrolled ι Key))) :
    ((groups.filter fun g => p g.1).map (·.2.length)).sum = Dict.size p groups := by
  induction groups with
  | nil => rfl
  | cons g _ ih =>
    rw [← singleton_append, size_append, ← ih, size_singleton]
    by_cases hg : p g.1 = true <;> simp [hg]

lemma Settled.start (w : World) (cols : ι → CollectionInstance)
    (groups : List (ι × List (Enrolled ι Key))) :
    Settled w cols groups [] ⟨sharedAdvances cols groups, 0, 0, []⟩ where
  asked := ⟨nofun, nofun, nofun, fun a => by simp⟩
  shares := by
    refine ⟨fun h => ?_, fun _ _ => nofun, fun h hbump => ?_, fun h => ?_⟩
    · simp only [sharedAdvances] at h
      split_ifs at h
      cases h
      exact sum_counts (fun c => counts cols c (.source _)) groups
    · simp only [sharedAdvances] at h
      split_ifs at h
      cases h
      cases hbump
    simp only [sharedAdvances] at h
    split_ifs at h with hl
    rw [length_map, ← countP_eq_length_filter] at hl
    exact not_lt.1 hl
  carried := ⟨nofun, nofun, nofun, nofun⟩

end

/-! ### What the end of a transaction announces -/

section

variable [DecidableEq ι]

lemma settled_settle (w : World) (cols : ι → CollectionInstance)
    (enr : List (Enrolled ι Key)) :
    let groups := (Dict.gather Enrolled.collection enr).entries
    Settled w cols groups groups (settle w cols enr).2 :=
  (Settled.start w cols _).foldl rfl (Dict.nodup _) fun _ hg => ne_nil_of_mem_gather hg

variable [DecidableEq Key]

lemma size_gather_enrolledBy (p : ι → Bool) (body : List (Write ι Key)) :
    Dict.size p (Dict.gather Enrolled.collection (enrolledBy body)).entries =
      body.countP (Write.enrolls p) :=
  (size_gather p Enrolled.collection _).trans (countP_enrolledBy p body)

lemma exists_covers_iff (cols : ι → CollectionInstance) (body : List (Write ι Key))
    (a : Advance ι) :
    (∃ g ∈ (Dict.gather Enrolled.collection (enrolledBy body)).entries, covers cols g.1 a) ↔
      ∃ write ∈ body, write.enrolls (covers cols · a) := by
  have hb : (∃ write ∈ body, write.enrolls (covers cols · a)) ↔
      ∃ e ∈ enrolledBy body, covers cols e.collection a := by
    rw [← countP_pos_iff, ← countP_enrolledBy, countP_pos_iff]
  rw [hb]
  constructor
  · rintro ⟨g, hg, hcov⟩
    obtain ⟨e, he, hkey⟩ := mem_keys_gather.1 (mem_map_of_mem hg)
    exact ⟨e, he, by rwa [hkey]⟩
  rintro ⟨e, he, hcov⟩
  have hkeys : e.collection ∈ (Dict.gather Enrolled.collection (enrolledBy body)).keys :=
    mem_keys_gather.2 ⟨e, he, rfl⟩
  obtain ⟨g, hg, hkey⟩ := List.mem_map.1 hkeys
  exact ⟨g, hg, by rwa [hkey]⟩

/-- However a transaction ended: an advance is made once if an instance it is for wrote a row, and
not at all otherwise. Its messages say how many rows it counts; there are at most so many of them,
and as many when it was answered with a generation, every instance whose rows it counts is one it is
for and has a bus, and no publish fails. -/
theorem one_advance_exact_rows (w : World) (cols : ι → CollectionInstance)
    (body : List (Write ι Key)) (ending : Ending) (a : Advance ι) :
    let log := (aexit w cols (enrolledBy body) ending).log
    let rows := body.countP (Write.enrolls (counts cols · a))
    log.countP (Event.makes a) =
        (if ∃ write ∈ body, write.enrolls (covers cols · a) then 1 else 0) ∧
      ∀ n, .advanced a n ∈ log →
        (∀ m, .published m ∈ log → Names n m.generation →
          (∃ c, covers cols c a ∧ m.tableName = (cols c).tableName) ∧ m.bumpRows = some rows) ∧
        log.countP (Event.carries n) ≤ rows ∧
        ((∀ write ∈ body, write.enrolls (counts cols · a) →
            write.enrolls fun c => covers cols c a && (cols c).hasClient) →
          (∀ k, w.sends k) → Stamps w n a → log.countP (Event.carries n) = rows) := by
  have h := settled_settle w cols (enrolledBy body)
  have hr : rowsOf cols (Dict.gather Enrolled.collection (enrolledBy body)).entries a =
      body.countP (Write.enrolls (counts cols · a)) := size_gather_enrolledBy _ body
  refine ⟨?_, fun n hn => ⟨fun m hm hna => ?_, ?_, fun hl hse ht => ?_⟩⟩
  · refine (h.asked.once a).trans (if_congr ?_ rfl rfl)
    exact exists_covers_iff cols body a
  · obtain ⟨hc, hbump⟩ := h.carried.stamped hn hm hna
    exact ⟨hc, hr ▸ hbump⟩
  · rw [← hr]
    exact (h.carried.le hn).trans (size_le_size fun g _ => counts_of_covers)
  apply (h.carried.eq hn hse ht).trans
  rw [size_gather_enrolledBy]
  refine countP_congr fun write hw => ⟨fun he => ?_, hl write hw⟩
  cases write with
  | enroll =>
    simp only [Write.enrolls, Bool.and_eq_true] at he ⊢
    exact counts_of_covers he.1
  | restate => cases he

end

/-! ### Three transactions -/

/-- An instance of a table `t`. -/
def instanceOf (writeGeneration : WriteGeneration) (natsClient : NatsClient) :
    CollectionInstance where
  tableName := ['t']
  writeGeneration := writeGeneration
  natsClient := natsClient
  generationSource := true
  cachesAbsences := false
  invalidationColumns := []

def sound : World where
  answer n := .token (generationToken ['i'] n)
  l2Answer n := some (generationToken ['i'] n)
  sends _ := true

def sharedWrites : List (Write Bool Nat) :=
  [.enroll false 7 none, .enroll true 8 none, .enroll false 7 none, .restate false 7 .empty]

theorem one_advance_of_sharedWrites :
    let log := (aexit sound (fun _ => instanceOf .kept .client) (enrolledBy sharedWrites)
      .committed).log
    log.countP (Event.makes (.source ['t'])) = 1 ∧ .advanced (.source ['t']) 0 ∈ log ∧
      log.countP (Event.carries 0) = 3 := by
  have h := one_advance_exact_rows sound (fun _ => instanceOf .kept .client) sharedWrites
    .committed (.source ['t'])
  have hmem : .advanced (.source ['t']) 0 ∈
      (aexit sound (fun _ : Bool => instanceOf .kept .client) (enrolledBy sharedWrites)
        .committed).log := mem_cons_self
  refine ⟨h.1.trans (if_pos ⟨_, mem_cons_self, rfl⟩), hmem, ?_⟩
  refine (h.2 0 hmem).2.2 (fun write _ he => ?_) (fun _ => rfl) ⟨_, ?_, rfl⟩
  · cases write with
    | enroll => rfl
    | restate => cases he
  · decide

/-- A transaction that is rolled back advances its table and announces its row. The rows of an
instance without a bus are counted and not announced. A table whose generation is kept in L2 is
advanced by both of its instances. -/
theorem advances_beyond_one_commit : (∃ log, log = (aexit sound (fun _ => instanceOf .kept .client)
        (enrolledBy [.enroll () 7 none]) .bodyRaised).log ∧
      log.countP (Event.makes (.source ['t'])) = 1 ∧ log.countP (Event.carries 0) = 1) ∧
    (∃ log, log = (aexit sound (fun c => instanceOf .kept (if c then .client else .missing))
        (enrolledBy [.enroll true 7 none, .enroll false 8 none]) .committed).log ∧
      log.countP (Event.carries 0) = 1 ∧
      ∃ m, .published m ∈ log ∧ Names 0 m.generation ∧ m.bumpRows = some 2) ∧
    (∃ log, log = (aexit sound (fun _ => instanceOf .keptInL2 .client)
        (enrolledBy [.enroll true 7 none, .enroll false 8 none]) .committed).log ∧
      log.countP (Event.makes (.l2 true)) = 1 ∧ log.countP (Event.makes (.l2 false)) = 1) := by
  refine ⟨⟨_, rfl, rfl, rfl⟩, ⟨_, rfl, rfl, ?_⟩, _, rfl, rfl, rfl⟩
  exact ⟨_, mem_cons_of_mem _ (mem_cons_of_mem _ mem_cons_self), rfl, rfl⟩

end CallerTransaction

end ThreeTears
