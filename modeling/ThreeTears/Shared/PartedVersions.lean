import ThreeTears.Lib.NamedGroups
import ThreeTears.Shared.SnapshotParts

/-!
# Publishing the scopes that moved publishes everything

A version with the name of a read has a part for each scope of each table, with the rows of the
read, whoever wrote it. A part that is linked from the version published last is of the same epoch
in both reads.
-/

namespace ThreeTears

open Option Function SnapshotReads

variable {ι T E R ν : Type*}

lemma scopePart_injective {digest : List Char → List Char} (h : Function.Injective digest) :
    Function.Injective (scopePart digest) := by
  intro a b hab
  have hm : ∀ c, digestMark.isPrefixOf (digestMark ++ digest c) := fun c =>
    List.isPrefixOf_iff_prefix.2 (List.prefix_append _ _)
  unfold scopePart at hab
  split_ifs at hab with ha hb hb
  · exact hab
  · rw [hab] at ha
    simp [hm b] at ha
  · rw [← hab] at hb
    simp [hm a] at hb
  · exact h (List.append_cancel_left hab)

variable [DecidableEq R] {x : SnapshotReads ι T E R ν} {i j : ι} {v : VersionFiles T R}

/-- The version has a part for each scope of the read, and no other file of its tables. -/
structure VersionFiles.Exact (x : SnapshotReads ι T E R ν) (i : ι) (v : VersionFiles T R) :
    Prop where
  parts : ∀ t ∈ x.tables, v.parts t = some ((x.present i t).val.map (x.part i t))
  whole : ∀ t ∈ x.tables, v.whole t = none

namespace VersionFiles.Exact

lemma rows_eq (h : v.Exact x i) {t : T} (ht : t ∈ x.tables) : v.rows t = x.table i t := by
  rw [VersionFiles.rows, h.parts t ht, h.whole t ht]
  simp only [getD_some, getD_none, add_zero, Multiset.map_map]
  exact sum_groups (x.table i t) (x.scope t)

lemma of_name_eq (h : v.Exact x i) (hna : x.name i = x.name j) : v.Exact x j := by
  refine ⟨fun t ht => ?_, h.whole⟩
  have hta := x.alike i j hna t ht
  have hpa : x.part i t = x.part j t := by
    funext scope
    rw [part, part, hta]
  rw [h.parts t ht, hpa, present, present, hta]

end VersionFiles.Exact

namespace SnapshotReads

lemma rows_of_not_moved {t : T} {scope : List Char} (ht : t ∈ x.tables)
    (h : ¬x.Moved i (x.epochs j) scope) : (x.table j t).filter (fun r => x.scope t r = scope) =
      (x.table i t).filter fun r => x.scope t r = scope := by
  obtain ⟨hsome, hq⟩ := not_or.1 h
  obtain ⟨e, he⟩ := ne_none_iff_exists'.1 hsome
  rw [x.exact i t ht scope e he, x.exact j t ht scope e ((not_not.1 hq).trans he)]

variable [DecidableEq T] [DecidableEq E] {held : Option (LastPublished T E ν)}
  {base : Option (VersionFiles T R)}

lemma exact_of_base (hb : ∀ t ∈ x.tables,
      (base.bind (·.parts t)).getD 0 = (heldScopes held t).val.map (x.part j t))
    (hheld : ∀ l ∈ held, l = x.describe j) : (writeTables (x.sources held i) base).Exact x i := by
  have ho : ∀ t ∈ x.tables, x.sources held i t =
      some (.parts ((x.writes held i t).val.map (x.part i t))
        ((x.drops held i t).image (scopePart x.digest))) := by
    intro t ht
    rw [sources, x.extra_beside i t ht]
    exact if_pos ht
  refine ⟨fun t ht => ?_, fun t ht => ?_⟩
  · simp only [writeTables, ho t ht, hb t ht]
    refine congrArg some (replace_named_eq (scopePart_injective x.digest_injective)
      (Finset.filter_subset _ _) fun sco hr hno => ?_)
    have hk : ¬(x.Moved i (heldEpochs held) sco ∨ sco ∉ heldScopes held t) :=
      fun h => hno (Finset.mem_filter.2 ⟨hr, h⟩)
    obtain ⟨hm, hmem⟩ := not_or.1 hk
    cases held with
    | none => exact absurd (Finset.notMem_empty sco) hmem
    | some l =>
      cases hheld l rfl
      exact ⟨not_not.1 hmem, rows_of_not_moved ht hm⟩
  · simp [writeTables, ho t ht]

lemma exact_whole : (writeTables (x.sources none i) none).Exact x i :=
  exact_of_base (j := i) (fun _ _ => rfl) nofun

lemma exact_based (h : v.Exact x j) :
    (writeTables (x.sources (some (x.describe j)) i) (some v)).Exact x i := by
  refine exact_of_base (fun t ht => ?_) (by rintro _ ⟨⟩; rfl)
  exact congrArg (Option.getD · 0) (h.parts t ht)

end SnapshotReads

/-- A version that another caller writes is none of the reads', or it is as the snapshot writes it.
-/
def PartsEvent.Exact (x : SnapshotReads ι T E R ν) : PartsEvent ι T R ν → Prop
  | .other n v => ∀ i, x.name i = n → v.Exact x i
  | _ => True

namespace PartsRun

variable {s s' : PartsRun ι T E R ν} {pc : PartsPc ι T E ν}

def Stands (x : SnapshotReads ι T E R ν) (s : PartsRun ι T E R ν) : PartsPc ι T E ν → Prop
  | .entering i job => (∀ l ∈ job.held, ∃ j, l = x.describe j) ∧
    ∀ k ∈ (PartsPc.entering i job).found, (s.versions (x.name k)).isSome
  | .writing i job => s.pending = some (x.name i) ∧ job ≠ .asItIs ∧ ∀ l ∈ job.held,
    (∃ j, l = x.describe j) ∧
    s.leased = some l.name ∧ (s.versions l.name).isSome
  | .placed i => s.pending = some (x.name i) ∧ (s.versions (x.name i)).isSome
  | _ => True

structure Inv (x : SnapshotReads ι T E R ν) (s : PartsRun ι T E R ν) : Prop where
  exact : ∀ i v, s.versions (x.name i) = some v → v.Exact x i
  current : ∀ n ∈ s.current, (s.versions n).isSome
  last : ∀ l ∈ s.last, ∃ j, l = x.describe j
  stands : s.Stands x s.pc
  answers : ∀ a ∈ s.answers, a.current = some (x.name a.read) ∧
    ∃ v, a.files = some v ∧ v.Exact x a.read

lemma Stands.mono (h : s.Stands x pc) (hpe : s'.pending = s.pending)
    (hls : s'.leased = s.leased) (he : ∀ n, (s.pending = some n ∨ s.leased = some n ∨
      ∃ i ∈ pc.found, x.name i = n) → (s.versions n).isSome → (s'.versions n).isSome) :
    s'.Stands x pc := by
  cases pc with
  | entering i job => exact ⟨h.1, fun k hk => he _ (.inr (.inr ⟨k, hk, rfl⟩)) (h.2 k hk)⟩
  | writing i job =>
    obtain ⟨hw, ho, hheld⟩ := h
    refine ⟨hpe.trans hw, ho, fun l hl => ?_⟩
    obtain ⟨hj, hla, hsome⟩ := hheld l hl
    exact ⟨hj, hls.trans hla, he _ (.inr (.inl hla)) hsome⟩
  | placed i => exact ⟨hpe.trans h.1, he _ (.inl h.1) h.2⟩
  | _ => trivial

lemma Inv.answer (h : s.Inv x) (hc : s.current = some (x.name i)) : (s.answer x i).Inv x := by
  refine ⟨h.exact, h.current, h.last, h.stands.mono rfl rfl fun _ _ hn => hn, fun a ha => ?_⟩
  obtain ha | ha := List.mem_append.1 ha
  · exact h.answers a ha
  rw [List.mem_singleton.1 ha]
  obtain ⟨v, hv⟩ := isSome_iff_exists.1 (h.current _ hc)
  exact ⟨hc, v, hv, h.exact i v hv⟩

lemma Inv.enter {job : PublishJob T E ν} (h : s.Inv x) (hpc : s.pc = .entering i job) :
    (s.enter x i job).Inv x := by
  have ht := h.stands
  rw [hpc] at ht
  unfold PartsRun.enter
  split_ifs with hsome
  · exact { h with stands := ⟨rfl, hsome⟩ }
  -- the version was not found in the store before, as it would be there still
  have ho : job ≠ .asItIs := by
    rintro rfl
    exact hsome (ht.2 i rfl)
  cases hheld : job.held with
  | none => exact { h with stands := ⟨rfl, ho, by simp [hheld]⟩ }
  | some last =>
    simp only
    split_ifs with hb
    · refine { h with stands := ⟨rfl, ho, fun l hl => ?_⟩ }
      cases hheld.symm.trans hl
      exact ⟨ht.1 last hheld, rfl, hb⟩
    · exact { h with stands := trivial }

lemma Inv.make (h : s.Inv x) (hpc : s.pc = .placed i) : (s.make x i).Inv x := by
  have ht := h.stands
  rw [hpc] at ht
  refine Inv.answer ⟨h.exact, ?_, h.last, trivial, h.answers⟩ rfl
  rintro _ ⟨⟩
  exact ht.2

section Versions

variable [DecidableEq ν] {n : ν} (h : s.Inv x)
include h

lemma Inv.job {current : Option ν} : s.Stands x (.entering i (s.jobOf x i current)) := by
  unfold jobOf
  split_ifs with hsome
  · exact ⟨by rintro _ ⟨⟩, by rintro _ ⟨⟩; exact hsome⟩
  cases hl : s.last with
  | none => exact ⟨by rintro _ ⟨⟩, by rintro _ ⟨⟩⟩
  | some last =>
    simp only
    split_ifs with hc
    · exact ⟨by rintro _ ⟨⟩; exact h.last last hl, by rintro _ ⟨⟩⟩
    · exact ⟨by rintro _ ⟨⟩, by rintro _ ⟨⟩⟩

omit h in
omit [DecidableEq R] in
lemma isSome_update {m : ν} (h : (s.versions m).isSome) :
    (Function.update s.versions n (some v) m).isSome := by
  by_cases he : m = n
  · rw [he, update_self]
    rfl
  rw [update_of_ne he]
  exact h

lemma Inv.update (pc : PartsPc ι T E ν) (hv : ∀ k, x.name k = n → v.Exact x k)
    (hpc : Stands x { s with versions := Function.update s.versions n (some v), pc := pc } pc) :
    Inv x { s with versions := Function.update s.versions n (some v), pc := pc } := by
  refine ⟨fun k w hw => ?_, fun m hm => isSome_update (h.current m hm), h.last, hpc, h.answers⟩
  have hw : Function.update s.versions n (some v) (x.name k) = some w := hw
  by_cases he : x.name k = n
  · rw [he, Function.update_self] at hw
    cases hw
    exact hv k he
  rw [Function.update_of_ne he] at hw
  exact h.exact k w hw

lemma Inv.retire (hc : some n ≠ s.current) (hpe : some n ≠ s.pending)
    (hl : some n ≠ s.leased) (ho : ∀ i ∈ s.pc.found, x.name i ≠ n) :
    Inv x { s with versions := Function.update s.versions n none } := by
  refine ⟨fun k v hv => ?_, fun m hm => ?_, h.last, h.stands.mono rfl rfl fun m hm hsome => ?_,
    h.answers⟩
  · have hv : Function.update s.versions n none (x.name k) = some v := hv
    by_cases he : x.name k = n
    · rw [he, Function.update_self] at hv
      cases hv
    rw [Function.update_of_ne he] at hv
    exact h.exact k v hv
  · have he : m ≠ n := by
      rintro rfl
      exact hc hm.symm
    exact (congrArg Option.isSome (Function.update_of_ne he _ _)).trans (h.current m hm)
  have he : m ≠ n := by
    rintro rfl
    obtain hm | hm | ⟨i, hi, hm⟩ := hm
    · exact hpe hm.symm
    · exact hl hm.symm
    · exact ho i hi hm
  exact (congrArg Option.isSome (Function.update_of_ne he _ _)).trans hsome

variable [DecidableEq T] [DecidableEq E]

lemma Inv.write {job : PublishJob T E ν} (hpc : s.pc = .writing i job) :
    (s.write x i job).Inv x := by
  have ht := h.stands
  rw [hpc] at ht
  obtain ⟨hpe, ho, hheld⟩ := ht
  have he : (writeTables (x.jobTables i job)
      (job.held.bind fun last => s.versions last.name)).Exact x i := by
    cases job with
    | asItIs => exact absurd rfl ho
    | whole => exact exact_whole
    | based last =>
      obtain ⟨⟨j, rfl⟩, -, hsome⟩ := hheld last rfl
      obtain ⟨v, hv⟩ := isSome_iff_exists.1 hsome
      have hb : (PublishJob.based (x.describe j)).held.bind (fun last => s.versions last.name) =
          some v := hv
      rw [hb]
      exact exact_based (h.exact j v hv)
  refine h.update (.placed i) (fun k hk => he.of_name_eq hk.symm) ⟨hpe, ?_⟩
  simp

variable {e : PartsEvent ι T R ν}

lemma Inv.event (he : e.Exact x)
    (ht : ((system x).guard (Kept x)).step s e = some s') : s'.Inv x := by
  obtain ⟨hk, ht⟩ := (StepSystem.guard_step_eq_some_iff _).1 ht
  simp only [system] at ht
  cases e with
  | publish i =>
    cases hpc : s.pc <;> simp only [step, hpc, reduceCtorEq] at ht
    split_ifs at ht with hc <;> cases ht
    · exact h.answer hc
    · exact { h with stands := trivial }
  | list =>
    cases hpc : s.pc <;> simp only [step, hpc, reduceCtorEq] at ht
    cases ht
    exact ⟨h.exact, h.current, h.last, h.job, h.answers⟩
  | enter =>
    cases hpc : s.pc <;> simp only [step, hpc, reduceCtorEq] at ht
    split_ifs at ht
    cases ht
    exact h.enter hpc
  | write =>
    cases hpc : s.pc <;> simp only [step, hpc, reduceCtorEq] at ht
    cases ht
    exact h.write hpc
  | make =>
    cases hpc : s.pc <;> simp only [step, hpc, reduceCtorEq] at ht
    cases ht
    exact h.make hpc
  | finish =>
    cases hpc : s.pc <;> simp only [step, hpc, reduceCtorEq] at ht
    cases ht
    exact ⟨h.exact, h.current, by rintro _ ⟨⟩; exact ⟨_, rfl⟩, trivial, h.answers⟩
  | fail =>
    cases ht
    exact { h with stands := trivial }
  | retire n =>
    simp only [step] at ht
    split_ifs at ht with hfree
    cases ht
    exact h.retire hfree.1 hfree.2.1 hfree.2.2 hk
  | other n v =>
    simp only [step] at ht
    split_ifs at ht
    cases ht
    exact h.update s.pc he (h.stands.mono rfl rfl fun m _ hm => isSome_update hm)
  | remake n =>
    simp only [step] at ht
    split_ifs at ht with hfree
    cases ht
    exact ⟨h.exact, by rintro _ ⟨⟩; exact hfree.2, h.last, h.stands.mono rfl rfl fun _ _ hm => hm,
      h.answers⟩

omit h

/-- The version that a publish returns is current and holds the rows of its read in every table, as
long as no version is let go between the publish's finding it in the store and asking for it. -/
theorem publish_moved_scopes {versions : ν → Option (VersionFiles T R)} {current : Option ν}
    {events : List (PartsEvent ι T R ν)}
    (hversions : ∀ i v, versions (x.name i) = some v → v.Exact x i)
    (hcurrent : ∀ n ∈ current, (versions n).isSome) (hother : ∀ e ∈ events, e.Exact x)
    (hrun : ((system x).guard (Kept x)).run (start versions current) events = some s) :
    ∀ a ∈ s.answers, a.current = some (x.name a.read) ∧
      ∃ v, a.files = some v ∧ ∀ t ∈ x.tables, v.rows t = x.table a.read t := by
  have hsa : Inv x (start versions current) :=
    ⟨hversions, hcurrent, by rintro _ ⟨⟩, trivial, by rintro _ ⟨⟩⟩
  have hi : s.Inv x :=
    StepSystem.run_invariant_mem _ (I := Inv x) (fun _ e he _ h hst =>
      h.event (hother e he) hst)
      hsa hrun
  intro a ha
  obtain ⟨hna, v, hv, hx⟩ := hi.answers a ha
  exact ⟨hna, v, hv, fun t ht => hx.rows_eq ht⟩

end Versions

/-- One table of two scopes. The second read has scope `a` at its second epoch, scope `b` unmoved.
-/
def movedScope : SnapshotReads Bool Unit Nat (Char × Nat) Nat where
  tables := {()}
  scope _ r := [r.1]
  digest := id
  digest_injective := Function.injective_id
  epochs second scope :=
    if scope = ['a'] then some (second.toNat + 1) else if scope = ['b'] then some 1 else none
  table second _ := {('a', second.toNat + 1), ('b', 1)}
  name second := second.toNat
  extra _ _ := none
  extra_beside _ _ _ := rfl
  rows _ scope e := if scope = ['a'] then {('a', e)} else if scope = ['b'] then {('b', 1)} else 0
  exact second t _ scope e he := by
    split_ifs at he with ha hb <;> cases he
    · subst ha
      cases second <;> decide
    subst hb
    cases second <;> decide
  alike i j h _ _ := by
    cases i <;> cases j
    · rfl
    · cases h
    · cases h
    · rfl

def movedOnce : List (PartsEvent Bool Unit (Char × Nat) Nat) :=
  [.publish false, .list, .enter, .write, .make, .finish, .publish true, .list, .enter, .write,
    .make, .finish]

theorem publish_movedOnce : ∃ s,
    ((system movedScope).guard (Kept movedScope)).run (start (fun _ => none) none) movedOnce =
      some s ∧ s.answers.map PublishAnswer.read = [false, true] ∧
      ∀ a ∈ s.answers, a.current = some (movedScope.name a.read) ∧
        ∃ v, a.files = some v ∧ ∀ t ∈ movedScope.tables, v.rows t = movedScope.table a.read t := by
  refine StepSystem.exists_run_and _ (by decide) fun s hr _ => ?_
  have ho : ∀ e ∈ movedOnce, e.Exact movedScope := by
    intro e he
    cases e <;> trivial
  exact publish_moved_scopes (by rintro _ _ ⟨⟩) (by rintro _ ⟨⟩) ho hr

/-- The first read is published again while a reader lets its version go: the publish has found it,
and asks for it once it is gone. -/
def letGo : List (PartsEvent Bool Unit (Char × Nat) Nat) :=
  movedOnce ++ [.publish false, .list, .retire 0, .enter, .write, .make]

/-- What is returned then has no rows. -/
theorem empty_letGo : ∃ s, (system movedScope).run (start (fun _ => none) none) letGo = some s ∧
    ∃ a ∈ s.answers, a.read = false ∧ a.current = some (movedScope.name false) ∧
      ∃ v, a.files = some v ∧ v.rows () = 0 ∧ movedScope.table false () ≠ 0 := by
  obtain ⟨s, hu, hs⟩ : ∃ s, (system movedScope).run (start (fun _ => none) none) letGo = some s ∧
        ∃ a ∈ s.answers, a.read = false ∧ a.current = some 0 ∧
          (a.files.map fun v => v.rows ()) = some 0 :=
    StepSystem.exists_run_of_any _ (by decide)
  obtain ⟨a, ha, hread, hc, hr⟩ := hs
  obtain ⟨v, hv, hr⟩ := map_eq_some_iff.1 hr
  exact ⟨s, hu, a, ha, hread, hc, v, hv, hr, by decide⟩

end PartsRun

end ThreeTears
