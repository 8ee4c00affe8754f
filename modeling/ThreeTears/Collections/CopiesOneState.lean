import ThreeTears.Collections.BufferedCopies

/-!
# A set of copies is one committed state

The record read first names a point of the run at which no write was in progress. Until a version is
taken the tables stay as they were there; once one is taken the record never says what it said.
-/

namespace ThreeTears

open SettledRead

namespace CopiesRun

variable {K T R V δ ι ρ : Type*} [LinearOrder K] [LinearOrder R]

section Defs

variable (c : CopiesSetup K T R V δ) (past : List (CopiesRun K T R V δ ι ρ))

/-- A point of the run at which the version was committed and no write was in progress. -/
structure Point (version : Nat) (p : CopiesRun K T R V δ ι ρ) : Prop where
  mem : p ∈ past
  version : epochOf p.db.table c.whole = version
  settled : writingOf p.db.table c.whole = none

/-- Something holds, unless a version has been taken since the point. -/
def Since (p s : CopiesRun K T R V δ ι ρ) (Q : Prop) : Prop :=
  EpochDb.Still c.whole p.db s.db ∧ Q ∨ EpochDb.Overtaken c.whole p.db s.db

def Copied (p : CopiesRun K T R V δ ι ρ) (g : CopyGeneration K T R V δ) : Prop :=
  ∀ t ∈ c.tables, g.backend t = p.db.data t

def BuildInv (s : CopiesRun K T R V δ ι ρ) : BuildPc K T R V δ → Prop
  | .idle => True
  | .looking _ => True
  | .settling read => read.Tidy c.whole ∧ ∀ version, read.Passed c.whole →
      SettledRead.Says (read.seen c.whole) version → ∃ p, Point c past version p ∧ Since c p s True
  | .copying g rest pos => ∃ p, Point c past g.stamp.version p ∧
      Since c p s ((∀ t ∈ c.tables, t ∉ rest → g.backend t = p.db.data t) ∧
        ∀ t ∈ rest.head?, pos.Matches (p.db.data t))
  | .checking g read => read.Tidy c.whole ∧ ∃ p, Point c past g.stamp.version p ∧
      (Copied c p g ∨ EpochDb.Overtaken c.whole p.db s.db ∧
        (read.Passed c.whole → ¬ SettledRead.Says (read.seen c.whole) g.stamp.version))

structure Inv (s : CopiesRun K T R V δ ι ρ) : Prop where
  now : s ∈ past
  db : s.db.Inv c.whole
  unwritten : s.db.Unwritten
  builds : ∀ r, BuildInv c past s (s.builds r)
  current : ∀ r g, s.current r = some g → ∃ p, Point c past g.stamp.version p ∧ Copied c p g

end Defs

variable {c : CopiesSetup K T R V δ} {past past' : List (CopiesRun K T R V δ ι ρ)}
  {p s s' : CopiesRun K T R V δ ι ρ} {ver : Nat}

lemma Point.mono (h : Point c past ver p) (hpa : past ⊆ past') : Point c past' ver p :=
  { h with mem := hpa h.mem }

lemma Since.mono {Q Q' : Prop} (h : Since c p s Q) (hQ : Q → Q') : Since c p s Q' :=
  h.imp_left (And.imp_right hQ)

lemma BuildInv.frame {pc : BuildPc K T R V δ} (h : BuildInv c past s pc) (hpa : past ⊆ past')
    (hi : ∀ p Q, Since c p s Q → Since c p s' Q)
    (ho : ∀ p : CopiesRun K T R V δ ι ρ, EpochDb.Overtaken c.whole p.db s.db →
      EpochDb.Overtaken c.whole p.db s'.db) : BuildInv c past' s' pc := by
  cases pc with
  | idle | looking read => trivial
  | settling =>
    refine ⟨h.1, fun ver hps hsa => ?_⟩
    obtain ⟨p, hp, hst⟩ := h.2 ver hps hsa
    exact ⟨p, hp.mono hpa, hi p _ hst⟩
  | copying =>
    obtain ⟨p, hp, hread⟩ := h
    exact ⟨p, hp.mono hpa, hi p _ hread⟩
  | checking =>
    obtain ⟨ht, p, hp, hread⟩ := h
    exact ⟨ht, p, hp.mono hpa, hread.imp_right (And.imp_left (ho p))⟩

lemma Inv.point (h : Inv c past s) (hsa : SettledRead.Says (s.db.table.get c.whole) ver) :
    Point c past ver s ∧ Since c s s True :=
  ⟨⟨h.now, hsa.1, hsa.2⟩, .inl ⟨.refl hsa.2, trivial⟩⟩

lemma not_says_of_overtaken (hp : Point c past ver p) (ho : EpochDb.Overtaken c.whole p.db s.db) :
    ¬ SettledRead.Says (s.db.table.get c.whole) ver := by
  rintro ⟨he, hw⟩
  have he : epochOf s.db.table c.whole = ver := he
  have hw : writingOf s.db.table c.whole = none := hw
  rw [EpochDb.Overtaken, hp.version, latestOf, he, hw] at ho
  exact absurd ho (not_lt.2 (Nat.max_zero _).le)

section Builds

variable {gone : Bool} {read read' : SettledRead K} {stamp : EpochSnapshot K}
  {g : CopyGeneration K T R V δ} {t : T} {rest : List T} {pos pos' : CopyPos R V δ}
  {held : KeyedTable R V} {proof : KeyFingerprint δ}

lemma BuildInv.settles (h : Inv c past s) (hbuild : BuildInv c past s (.settling read))
    (hread : s.readSettled c gone read = .reading read') : BuildInv c past s (.settling read') := by
  obtain ⟨ht, hg⟩ := reading_of_next c.epochsPage_pos hbuild.1 hread
  refine ⟨ht, fun ver hpa hsa => ?_⟩
  rcases hg hpa with ⟨hpa, hseen⟩ | ⟨-, hseen⟩
  · exact hbuild.2 ver hpa (hseen ▸ hsa)
  · exact ⟨s, h.point (hseen ▸ hsa)⟩

lemma BuildInv.copies {g : CopyGeneration K T R V δ} (hp : Point c past g.stamp.version p)
    (hi : Since c p s (∀ t ∈ c.tables, t ∉ rest → g.backend t = p.db.data t)) :
    BuildInv c past s (.copies g rest) := by
  cases rest with
  | nil =>
    refine ⟨tidy_start false, p, hp, ?_⟩
    rcases hi with ⟨-, hc⟩ | ho
    · exact .inl fun t ht => hc t ht List.not_mem_nil
    · exact .inr ⟨ho, fun hpa => absurd hpa (not_passed_start false)⟩
  | cons =>
    refine ⟨p, hp, hi.mono fun hc => ⟨hc, ?_⟩⟩
    rintro t' ⟨⟩
    trivial

lemma BuildInv.stamps (h : Inv c past s) (hbuild : BuildInv c past s (.settling read))
    (hread : s.readSettled c gone read = .settled stamp) :
    BuildInv c past s (.copies (.begun stamp) c.tables) := by
  obtain ⟨row, hrow, hsa⟩ := settled_of_next c.epochsPage_pos hbuild.1 hread
  obtain ⟨p, hp, hi⟩ : ∃ p, Point c past stamp.version p ∧ Since c p s True := by
    rcases hrow with ⟨hpa, rfl⟩ | ⟨-, rfl⟩
    · exact hbuild.2 _ hpa hsa
    · exact ⟨s, h.point hsa⟩
  exact .copies hp (hi.mono fun _ t ht ho => absurd ht ho)

lemma BuildInv.checks (hbuild : BuildInv c past s (.checking g read))
    (hread : s.readSettled c gone read = .reading read') :
    BuildInv c past s (.checking g read') := by
  obtain ⟨ht, p, hp, hc⟩ := hbuild
  obtain ⟨ht', hg⟩ := reading_of_next c.epochsPage_pos ht hread
  refine ⟨ht', p, hp, hc.imp_right fun ⟨ho, hno⟩ => ⟨ho, fun hpa => ?_⟩⟩
  rcases hg hpa with ⟨hpa, hseen⟩ | ⟨-, hseen⟩
  · exact hseen ▸ hno hpa
  · exact hseen ▸ not_says_of_overtaken hp ho

lemma BuildInv.keeps (hbuild : BuildInv c past s (.checking g read))
    (hread : s.readSettled c gone read = .settled g.stamp) :
    ∃ p, Point c past g.stamp.version p ∧ Copied c p g := by
  obtain ⟨ht, p, hp, hc | ⟨ho, hno⟩⟩ := hbuild
  · exact ⟨p, hp, hc⟩
  obtain ⟨row, hrow, hsa⟩ := settled_of_next c.epochsPage_pos ht hread
  rcases hrow with ⟨hpa, rfl⟩ | ⟨-, rfl⟩
  · exact absurd hsa (hno hpa)
  · exact absurd hsa (not_says_of_overtaken hp ho)

variable [DecidableEq δ] (hbuild : BuildInv c past s (.copying g (t :: rest) pos))
include hbuild

lemma BuildInv.reads (hread : c.reader.next (s.db.data t) pos = .reading pos') :
    BuildInv c past s (.copying g (t :: rest) pos') := by
  obtain ⟨p, hp, ⟨ht, hc, hm⟩ | ho⟩ := hbuild
  · refine ⟨p, hp, .inl ⟨ht, hc, ?_⟩⟩
    rintro t' ⟨⟩
    rw [ht.data] at hread
    exact CopyReader.matches_next (hm t rfl) hread
  · exact ⟨p, hp, .inr ho⟩

lemma BuildInv.copied [DecidableEq T]
    (hread : c.reader.next (s.db.data t) pos = .ended (some held) (.ok proof)) :
    BuildInv c past s (.copies (g.put t held proof) rest) := by
  obtain ⟨p, hp, hi⟩ := hbuild
  refine .copies hp (hi.mono fun ⟨hc, hm⟩ t' ht' ho => ?_)
  rcases eq_or_ne t' t with rfl | he
  · have hheld := CopyReader.held_of_next (hm t' rfl) hread
    simp [CopyGeneration.put, hheld]
  have hb := hc t' ht' (by simp [he, ho])
  simpa [CopyGeneration.put, he] using hb

end Builds

variable [DecidableEq ρ]

lemma Inv.setBuild (h : Inv c past s) {r : ρ} {pc : BuildPc K T R V δ}
    (hbuild : BuildInv c past s pc) (hdb : s'.db = s.db)
    (hb : s'.builds = Function.update s.builds r pc) (hu : ∀ r g, s'.current r = some g →
      ∃ p, Point c past g.stamp.version p ∧ Copied c p g) : Inv c (past ++ [s']) s' := by
  have hpa : past ⊆ past ++ [s'] := List.subset_append_left _ _
  refine ⟨by simp, hdb ▸ h.db, hdb ▸ h.unwritten, fun j => ?_, fun j g hg => ?_⟩
  · have hr : ∀ pc, BuildInv c past s pc → BuildInv c (past ++ [s']) s' pc := by
      intro pc hpc
      refine hpc.frame hpa (fun p Q => ?_) fun p => ?_
      · rw [Since, Since, hdb]
        exact id
      rw [hdb]
      exact id
    rw [hb]
    exact forall_update (I := fun _ (pc : BuildPc K T R V δ) => BuildInv c (past ++ [s']) s' pc)
      (fun j => hr _ (h.builds j)) (hr _ hbuild) j
  obtain ⟨p, hp, hc⟩ := hu j g hg
  exact ⟨p, hp.mono hpa, hc⟩

variable [DecidableEq T] [DecidableEq δ] [DecidableEq ι]

theorem Inv.step {a : CopiesAct K T R V ι ρ} (h : Inv c past s) (he : s.Fenced a)
    (hm : s.Moves c a s') : Inv c (past ++ [s']) s' := by
  cases hm with
  | db _ db hdb =>
    have hpa : past ⊆ past ++ [{ s with db := db }] := List.subset_append_left _ _
    refine ⟨by simp, h.db.step hdb, h.unwritten.step hdb, fun r => ?_, fun r g hg => ?_⟩
    · refine (h.builds r).frame hpa (fun p Q hi => ?_) fun p ho => ho.step h.db hdb
      rcases hi with ⟨ht, hQ⟩ | ho
      · exact (ht.step h.db h.unwritten he hdb).imp_left fun ht => ⟨ht, hQ⟩
      · exact .inr (ho.step h.db hdb)
    obtain ⟨p, hp, hc⟩ := h.current r g hg
    exact ⟨p, hp.mono hpa, hc⟩
  | rests _ _ _ hpc =>
    refine h.setBuild ?_ rfl rfl h.current
    rcases hpc with rfl | rfl | ⟨read, rfl⟩
    · trivial
    · exact ⟨tidy_start false, fun _ hps => absurd hps (not_passed_start false)⟩
    · trivial
  | settles r _ _ _ hpc hread =>
    exact h.setBuild ((hpc ▸ h.builds r).settles h hread) rfl rfl h.current
  | stamps r _ _ _ hpc hread =>
    exact h.setBuild ((hpc ▸ h.builds r).stamps h hread) rfl rfl h.current
  | reads r _ _ _ _ _ hpc hread =>
    exact h.setBuild ((hpc ▸ h.builds r).reads hread) rfl rfl h.current
  | copied r _ _ _ _ _ _ hpc hread =>
    exact h.setBuild ((hpc ▸ h.builds r).copied hread) rfl rfl h.current
  | checks r _ _ _ _ hpc hread =>
    exact h.setBuild ((hpc ▸ h.builds r).checks hread) rfl rfl h.current
  | keeps r _ g _ hpc hread =>
    have hidle : BuildInv c past s .idle := trivial
    refine h.setBuild hidle rfl rfl fun j => ?_
    refine forall_update (I := fun _ (o : Option (CopyGeneration K T R V δ)) => ∀ g, o = some g →
      ∃ p, Point c past g.stamp.version p ∧ Copied c p g) h.current ?_ j
    rintro g' ⟨⟩
    exact (hpc ▸ h.builds r).keeps hread

omit [DecidableEq ι] [DecidableEq ρ] [DecidableEq T] [DecidableEq δ] in
lemma Inv.start (data : T → KeyedTable R V) : Inv c [(start data : CopiesRun K T R V δ ι ρ)]
    (start data) where
  now := List.mem_singleton_self _
  db := .start data
  unwritten := nofun
  builds _ := trivial
  current := nofun

/-- If writers touch what they change in the transaction that changes it, the copies a build keeps
are the tables as they all were at one point of the run, at which no write was in progress and the
version they are stamped with was the last one committed. -/
theorem current_one_state {data : T → KeyedTable R V} {as : List (CopiesAct K T R V ι ρ)}
    (hrun : ((system c).guard Fenced).run (start data) as = some s) {r : ρ}
    {g : CopyGeneration K T R V δ} (hg : s.current r = some g) :
    ∃ p ∈ ((system c).guard Fenced).states (start data) as,
      epochOf p.db.table c.whole = g.stamp.version ∧ writingOf p.db.table c.whole = none ∧
      ∀ t ∈ c.tables, g.backend t = p.db.data t := by
  have h : Inv c (((system c).guard Fenced).states (start data) as) s := by
    refine StepSystem.run_invariant_states _ (I := Inv c) (fun past s a s' h ht => ?_)
      (.start data) hrun
    obtain ⟨he, ht⟩ := (StepSystem.guard_step_eq_some_iff _).1 ht
    exact h.step he (moves_of_step ht)
  obtain ⟨p, hp, hc⟩ := h.current r g hg
  exact ⟨p, hp.mem, hp.version, hp.settled, hc⟩

def pairSetup : CopiesSetup Nat Bool Nat Nat Nat where
  whole := 0
  epochsPage := 1
  epochsPage_pos := Nat.one_pos
  tables := [false, true]
  reader := ⟨1, Nat.one_pos, fun rows => (rows.map Prod.snd).sum, List.sum⟩

def pairData (v : Nat) : Bool → KeyedTable Nat Nat
  | false => .ofRows [(1, v)]
  | true => .ofRows [(1, v), (2, v)]

/-- A write changes both tables and is committed between the tables of the first build, which is
refused; the second is kept. -/
def refusedThenKept : List (CopiesAct Nat Bool Nat Nat Unit Unit) :=
  [.build (), .settled () false, .copy (), .copy (), .copy (), .copy (),
    .db (.openTx ()), .db (.lockVersion ()), .db (.takeVersion ()), .db (.commitTx ()),
    .db (.openTx ()), .db (.touch () 1 [7]), .db (.mark ()),
    .db (.writeData () fun _ => pairData 5), .db (.commitTx ()),
    .db (.openTx ()), .db (.commit () 1 []), .db (.readBehind ()), .db (.moveScopes ()),
    .db (.commitTx ()),
    .copy (), .copy (), .copy (), .copy (), .copy (), .settled () false, .settled () false,
    .build (), .settled () false, .settled () false, .copy (), .copy (), .copy (), .copy (),
    .copy (), .copy (), .copy (), .copy (), .copy (), .settled () false, .settled () false]

theorem current_refusedThenKept :
    ∃ s g, ((system pairSetup).guard Fenced).run (start (pairData 3)) refusedThenKept = some s ∧
      (s.current () = some g ∧ g.stamp.version = 1 ∧ (g.backend true).rows = [(1, 5), (2, 5)]) ∧
      ∃ p ∈ ((system pairSetup).guard Fenced).states (start (pairData 3)) refusedThenKept,
        ∀ t, g.backend t = p.db.data t := by
  obtain ⟨s, hr, hs⟩ :
      ∃ s, ((system pairSetup).guard Fenced).run (start (pairData 3)) refusedThenKept = some s ∧
        ∃ g ∈ s.current (), g.stamp.version = 1 ∧ (g.backend true).rows = [(1, 5), (2, 5)] :=
    StepSystem.exists_run_of_any _ rfl
  obtain ⟨g, hg, ht, ho⟩ := hs
  obtain ⟨p, hp, -, -, hc⟩ := current_one_state hr hg
  exact ⟨s, g, hr, ⟨hg, ht, ho⟩, p, hp, fun t => hc t (by cases t <;> decide)⟩

end CopiesRun

end ThreeTears
