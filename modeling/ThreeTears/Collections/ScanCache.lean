import ThreeTears.Collections.Generation
import ThreeTears.Lib.StepSystem
import ThreeTears.Lib.Families

/-!
# Cached scans of one caller

A pod keeps the results of visibility-filtered scans in its L1, each under the text of a key that
names the caller. A write to a table evicts the entries that depend on it, and counts the eviction,
so that a scan that was reading meanwhile is not stored.
-/

namespace ThreeTears

open Function List Option

structure ScanCacheKey where
  ownerTable : Text
  parts : List Text
  deriving DecidableEq

namespace ScanCacheKey

def asString (key : ScanCacheKey) : Text := ['|'].intercalate (key.ownerTable :: key.parts)

def isPlain (key : ScanCacheKey) : Bool := (key.ownerTable :: key.parts).all fun part => '|' ∉ part

lemma asString_injOn {key key' : ScanCacheKey} (hkey : key.isPlain) (hk' : key'.isPlain)
    (h : key.asString = key'.asString) : key = key' := by
  have hsp (k : ScanCacheKey) (hk : k.isPlain) :
      k.asString.splitOn '|' = k.ownerTable :: k.parts := by
    refine splitOn_intercalate _ (fun part hr => ?_) (by simp)
    simpa using all_eq_true.1 hk part hr
  have hpa := (hsp key hkey).symm.trans ((congrArg _ h).trans (hsp key' hk'))
  rw [List.cons.injEq] at hpa
  cases key
  cases key'
  cases hpa.1
  cases hpa.2
  rfl

end ScanCacheKey

structure ScanReadToken where
  dependsOn : List Text
  evictions : List Nat

/-- A row of `collection_scan_cache`. -/
structure ScanEntry (R : Type*) where
  ownerTable : Text
  dependsOn : List Text
  payload : R

/-- The eviction counts, and the table in L1 unless caching is disabled. -/
structure ScanCache (R : Type*) where
  evictions : Dict Text Nat
  l1 : Option (Dict Text (ScanEntry R))

namespace ScanCache

variable {R : Type*} (cache : ScanCache R) (trusted : List Text → Bool)

def evictionsOf (table : Text) : Nat := (cache.evictions.get table).getD 0

def get (key : ScanCacheKey) : Option R :=
  cache.l1.bind fun rows => (rows.get key.asString).bind fun row =>
    if trusted row.dependsOn then some row.payload else none

def beginRead (dependsOn : List Text) : ScanReadToken :=
  ⟨dependsOn, dependsOn.map cache.evictionsOf⟩

def put (key : ScanCacheKey) (rows : R) (token : ScanReadToken) : Bool × ScanCache R :=
  if token.dependsOn.map cache.evictionsOf ≠ token.evictions then (false, cache)
  else
    match cache.l1 with
    | some l1 =>
      if trusted token.dependsOn then
        (true, { cache with
          l1 := some (l1.set key.asString ⟨key.ownerTable, token.dependsOn, rows⟩) })
      else (false, cache)
    | none => (false, cache)

def dropForTable (table : Text) : Nat × ScanCache R :=
  let depends (rows : Dict Text (ScanEntry R)) (key : Text) : Bool :=
    (rows.get key).any fun row => table ∈ row.dependsOn
  let counted := { cache with evictions := cache.evictions.set table (cache.evictionsOf table + 1) }
  match cache.l1 with
  | some rows =>
    ((rows.keys.filter (depends rows)).length,
      { counted with l1 := some (rows.filter fun key => !depends rows key) })
  | none => (0, counted)

variable {cache trusted}

lemma evictionsOf_dropForTable (table table' : Text) :
    (cache.dropForTable table).2.evictionsOf table' =
      cache.evictionsOf table' + if table' = table then 1 else 0 := by
  have he : (cache.dropForTable table).2.evictions =
      cache.evictions.set table (cache.evictionsOf table + 1) := by
    unfold dropForTable
    cases cache.l1 <;> rfl
  rw [evictionsOf, he]
  split_ifs with h
  · rw [h, Dict.get_set_self]
    rfl
  rw [Dict.get_set_of_ne h]
  rfl

lemma get_l1_dropForTable {table text : Text} {l1 : Dict Text (ScanEntry R)} {row : ScanEntry R}
    (hl1 : (cache.dropForTable table).2.l1 = some l1) (hrow : l1.get text = some row) :
    ∃ l1', cache.l1 = some l1' ∧ l1'.get text = some row ∧ table ∉ row.dependsOn := by
  cases hc : cache.l1 with
  | none => simp [dropForTable, hc] at hl1
  | some rows =>
    simp only [dropForTable, hc, Option.some.injEq] at hl1
    rw [← hl1, Dict.get_filter] at hrow
    split_ifs at hrow with hk
    refine ⟨rows, rfl, hrow, ?_⟩
    simpa [hrow] using hk

lemma put_cases (key : ScanCacheKey) (rows : R) (token : ScanReadToken) :
    (cache.put trusted key rows token).2 = cache ∨
      token.dependsOn.map cache.evictionsOf = token.evictions ∧ ∃ l1, cache.l1 = some l1 ∧
        (cache.put trusted key rows token).2 = { cache with
          l1 := some (l1.set key.asString ⟨key.ownerTable, token.dependsOn, rows⟩) } := by
  by_cases he : token.dependsOn.map cache.evictionsOf = token.evictions
  · cases hl1 : cache.l1 with
    | none => exact .inl (by simp [put, he, hl1])
    | some l1 =>
      by_cases ht : trusted token.dependsOn
      · exact .inr ⟨he, l1, rfl, by simp [put, he, hl1, ht]⟩
      · exact .inl (by simp [put, he, hl1, ht])
  · exact .inl (by simp [put, he])

lemma evictionsOf_put (key : ScanCacheKey) (rows : R) (token : ScanReadToken) (table : Text) :
    (cache.put trusted key rows token).2.evictionsOf table = cache.evictionsOf table := by
  rcases put_cases key rows token with h | ⟨-, l1, -, h⟩
  · rw [h]
  rw [h]
  rfl

lemma get_l1_put {key : ScanCacheKey} {rows : R} {token : ScanReadToken} {text : Text}
    {l1 : Dict Text (ScanEntry R)} {row : ScanEntry R}
    (hl1 : (cache.put trusted key rows token).2.l1 = some l1) (hrow : l1.get text = some row) :
    (∃ l1', cache.l1 = some l1' ∧ l1'.get text = some row) ∨
      text = key.asString ∧ row = ⟨key.ownerTable, token.dependsOn, rows⟩ ∧
        token.dependsOn.map cache.evictionsOf = token.evictions := by
  rcases put_cases key rows token with h | ⟨he, l1', hl1', h⟩
  · rw [h] at hl1
    exact .inl ⟨l1, hl1, hrow⟩
  rw [h] at hl1
  cases hl1
  rcases eq_or_ne text key.asString with rfl | ht
  · rw [Dict.get_set_self, Option.some.injEq] at hrow
    exact .inr ⟨rfl, hrow.symm, he⟩
  rw [Dict.get_set_of_ne ht] at hrow
  exact .inl ⟨l1', hl1', hrow⟩

end ScanCache

/-! ### Scans that interleave -/

/-- What the counts are about: a scan began, or a table was evicted. -/
inductive ScanEvent (ι : Type*)
  | begun (scan : ι)
  | dropped (table : Text)
  deriving DecidableEq

structure Scan (R : Type*) where
  key : ScanCacheKey
  token : ScanReadToken
  rows : Option R

/-- The cache, the scans on it and what happened, latest first. -/
structure ScanRun (R ι : Type*) where
  cache : ScanCache R
  scans : ι → Option (Scan R)
  log : List (ScanEvent ι)

/-- A scan begins, reads its rows from L3, or puts them, while some tables are trusted; a table is
evicted. -/
inductive ScanAct (R ι : Type*)
  | begin (i : ι) (key : ScanCacheKey) (dependsOn : List Text)
  | scan (i : ι) (rows : R)
  | put (i : ι) (trusted : List Text → Bool)
  | drop (table : Text)

namespace ScanRun

variable {R ι : Type*} [DecidableEq ι]

omit [DecidableEq ι] in
def start (hasL1 : Bool) : ScanRun R ι where
  cache := ⟨.empty, if hasL1 then some .empty else none⟩
  scans _ := none
  log := []

def step (s : ScanRun R ι) : ScanAct R ι → Option (ScanRun R ι)
  | .begin i key dependsOn =>
    if (s.scans i).isNone then
      some { s with
        scans := update s.scans i (some ⟨key, s.cache.beginRead dependsOn, none⟩)
        log := .begun i :: s.log }
    else none
  | .scan i rows => (s.scans i).bind fun scan =>
    if scan.rows.isNone then
      some { s with scans := update s.scans i (some { scan with rows := some rows }) }
    else none
  | .put i trusted => (s.scans i).bind fun scan => scan.rows.map fun rows =>
    { s with cache := (s.cache.put trusted scan.key rows scan.token).2 }
  | .drop table =>
    some { s with cache := (s.cache.dropForTable table).2, log := .dropped table :: s.log }

def isPlain (_ : ScanRun R ι) : ScanAct R ι → Bool
  | .begin _ key _ => key.isPlain
  | _ => true

end ScanRun

def scanCache (R ι : Type*) [DecidableEq ι] : StepSystem (ScanRun R ι) (ScanAct R ι) :=
  ⟨ScanRun.step⟩

namespace ScanRun

variable {R ι : Type*} [DecidableEq ι] {s s' : ScanRun R ι} {i : ι} {key : ScanCacheKey}

omit [DecidableEq ι] in
def Undropped (s : ScanRun R ι) (i : ι) (tables : List Text) : Prop :=
  ∃ later earlier, s.log = later ++ .begun i :: earlier ∧
    ∀ table ∈ tables, .dropped table ∉ later

/-- The counts are those of the log, a token's those when its scan began, and every entry is the
result of a scan for a key of its text that nothing has overtaken. -/
structure Inv (s : ScanRun R ι) : Prop where
  counts : ∀ table, s.cache.evictionsOf table = s.log.count (.dropped table)
  tokens : ∀ i scan, s.scans i = some scan → ∃ later earlier, s.log = later ++ .begun i :: earlier ∧
    scan.token.evictions = scan.token.dependsOn.map fun table => earlier.count (.dropped table)
  plain : ∀ i scan, s.scans i = some scan → scan.key.isPlain
  entries : ∀ l1 text row, s.cache.l1 = some l1 → l1.get text = some row →
    ∃ i scan, s.scans i = some scan ∧ scan.key.asString = text ∧ scan.rows = some row.payload ∧
      row.dependsOn = scan.token.dependsOn ∧ s.Undropped i scan.token.dependsOn

lemma inv_start (hasL1 : Bool) : (start hasL1 : ScanRun R ι).Inv where
  counts _ := rfl
  tokens _ _ := nofun
  plain _ _ := nofun
  entries l1 text row hl1 hrow := by
    cases hasL1 with try cases hl1
    | true => cases hrow

variable (h : s.Inv)
include h

lemma Inv.begin {dependsOn : List Text} (hnone : s.scans i = none)
    (hpl : key.isPlain) : Inv { s with
      scans := update s.scans i (some ⟨key, s.cache.beginRead dependsOn, none⟩)
      log := .begun i :: s.log } where
  counts table := by
    rw [count_cons_of_ne (by simp)]
    exact h.counts table
  tokens j scan hj := by
    obtain ⟨rfl, ⟨⟩⟩ | ⟨-, hj⟩ := of_update_eq hj
    · refine ⟨[], s.log, rfl, ?_⟩
      exact List.map_congr_left fun table _ => h.counts table
    obtain ⟨later, earlier, hl, ht⟩ := h.tokens j scan hj
    exact ⟨.begun i :: later, earlier, congrArg _ hl, ht⟩
  plain j scan hj := by
    obtain ⟨-, ⟨⟩⟩ | ⟨-, hj⟩ := of_update_eq hj
    · exact hpl
    · exact h.plain j scan hj
  entries l1 text row hl1 hrow := by
    obtain ⟨j, scan, hj, he, hr, hd, later, earlier, hl, hdr⟩ :=
      h.entries l1 text row hl1 hrow
    have hne : j ≠ i := by
      rintro rfl
      rw [hnone] at hj
      cases hj
    refine ⟨j, scan, (update_of_ne hne _ _).trans hj, he, hr, hd,
      .begun i :: later, earlier, congrArg _ hl, fun table hta => ?_⟩
    simpa using hdr table hta

omit h in
omit [DecidableEq ι] in
lemma Undropped.congr {tables : List Text} (h : s.Undropped i tables) (hl : s'.log = s.log) :
    s'.Undropped i tables := by
  obtain ⟨later, ear, hsp, hd⟩ := h
  exact ⟨later, ear, hl.trans hsp, hd⟩

lemma Inv.scan {scan : Scan R} {rows : R} (hc : s.scans i = some scan)
    (hnone : scan.rows = none) : Inv { s with
      scans := update s.scans i (some { scan with rows := some rows }) } where
  counts := h.counts
  tokens j scan' hj := by
    obtain ⟨rfl, ⟨⟩⟩ | ⟨-, hj⟩ := of_update_eq hj
    · exact h.tokens j scan hc
    · exact h.tokens j scan' hj
  plain j scan' hj := by
    obtain ⟨-, ⟨⟩⟩ | ⟨-, hj⟩ := of_update_eq hj
    · exact h.plain i scan hc
    · exact h.plain j scan' hj
  entries l1 text row hl1 hrow := by
    obtain ⟨j, scan', hj, ht, hr, hd, hu⟩ := h.entries l1 text row hl1 hrow
    have he : j ≠ i := by
      rintro rfl
      rw [hc, Option.some.injEq] at hj
      rw [← hj, hnone] at hr
      cases hr
    exact ⟨j, scan', (update_of_ne he _ _).trans hj, ht, hr, hd, hu.congr rfl⟩

lemma Inv.undropped {scan : Scan R} (hsc : s.scans i = some scan)
    (he : scan.token.dependsOn.map s.cache.evictionsOf = scan.token.evictions) :
    s.Undropped i scan.token.dependsOn := by
  obtain ⟨later, ear, hl, ht⟩ := h.tokens i scan hsc
  refine ⟨later, ear, hl, fun table hta hmem => ?_⟩
  rw [ht, map_inj_left] at he
  have hc := (h.counts table).symm.trans (he table hta)
  have hpos : 0 < later.count (.dropped table) := count_pos_iff.2 hmem
  rw [hl, count_append, count_cons_of_ne (by simp)] at hc
  omega

lemma Inv.put {scan : Scan R} {rows : R} {trusted : List Text → Bool}
    (hc : s.scans i = some scan) (hr : scan.rows = some rows) :
    Inv { s with cache := (s.cache.put trusted scan.key rows scan.token).2 } where
  __ := h
  counts table := (ScanCache.evictionsOf_put ..).trans (h.counts table)
  entries l1 text row hl1 hrow := by
    rcases ScanCache.get_l1_put hl1 hrow with ⟨l1', hl1', ho'⟩ | ⟨ht, rfl, he⟩
    · obtain ⟨j, scan', hj, ht, hr', hd, hu⟩ := h.entries l1' text row hl1' ho'
      exact ⟨j, scan', hj, ht, hr', hd, hu.congr rfl⟩
    · exact ⟨i, scan, hc, ht.symm, hr, rfl, (h.undropped hc he).congr rfl⟩

lemma Inv.drop {table : Text} : Inv { s with
    cache := (s.cache.dropForTable table).2, log := .dropped table :: s.log } where
  counts table' := by
    rw [count_cons, ← h.counts table']
    apply (ScanCache.evictionsOf_dropForTable table table').trans
    by_cases he : table' = table
    · simp [he]
    have hne : table ≠ table' := fun h => he h.symm
    simp [he, hne]
  tokens i scan hc := by
    obtain ⟨later, earlier, hl, ht⟩ := h.tokens i scan hc
    exact ⟨.dropped table :: later, earlier, congrArg _ hl, ht⟩
  plain := h.plain
  entries l1 text row hl1 hrow := by
    obtain ⟨l1', hl1', hr', hk⟩ := ScanCache.get_l1_dropForTable hl1 hrow
    obtain ⟨i, scan, hc, hte, hr, hd, later, earlier, hl, hdr⟩ :=
      h.entries l1' text row hl1' hr'
    refine ⟨i, scan, hc, hte, hr, hd, .dropped table :: later, earlier,
      congrArg _ hl, fun table' ht' hmem => ?_⟩
    rcases mem_cons.1 hmem with he | hmem
    · cases he
      exact hk (hd ▸ ht')
    · exact hdr table' ht' hmem

theorem Inv.step {a : ScanAct R ι} (hl : s.isPlain a) (ht : s.step a = some s') : s'.Inv := by
  cases a with try rw [ScanRun.step, bind_eq_some_iff] at ht
  | begin =>
    simp only [ScanRun.step] at ht
    split_ifs at ht with hnone
    cases ht
    exact h.begin (isNone_iff_eq_none.1 hnone) hl
  | scan =>
    obtain ⟨scan, hc, ht⟩ := ht
    split_ifs at ht with hnone
    cases ht
    exact h.scan hc (isNone_iff_eq_none.1 hnone)
  | put =>
    obtain ⟨scan, hc, ht⟩ := ht
    obtain ⟨rows, hr, rfl⟩ := map_eq_some_iff.1 ht
    exact h.put hc hr
  | drop =>
    cases ht
    exact h.drop

omit h

/-- If no part of a key holds a separator: what a `get` returns was read by a scan for the same key,
and since that scan began no table it depends on has been evicted. -/
theorem get_own_undropped {hasL1 : Bool} {as : List (ScanAct R ι)} {rows : R}
    {trusted : List Text → Bool}
    (hrun : ((scanCache R ι).guard fun s a => s.isPlain a).run (start hasL1) as = some s)
    (hkey : key.isPlain) (hget : s.cache.get trusted key = some rows) :
    ∃ i scan, s.scans i = some scan ∧ scan.key.ownerTable = key.ownerTable ∧
      scan.key.parts = key.parts ∧ scan.rows = some rows ∧ s.Undropped i scan.token.dependsOn := by
  have hi : s.Inv := by
    refine StepSystem.run_guard_invariant _ (fun s a s' h hl hst => ?_) (inv_start hasL1) hrun
    exact h.step hl hst
  simp only [ScanCache.get, bind_eq_some_iff] at hget
  obtain ⟨l1, hl1, row, hrow, he⟩ := hget
  split_ifs at he
  cases he
  obtain ⟨i, scan, hc, ht, hr, -, hu⟩ := hi.entries l1 _ row hl1 hrow
  have hq := ScanCacheKey.asString_injOn (hi.plain i scan hc) hkey ht
  exact ⟨i, scan, hc, congrArg _ hq, congrArg _ hq, hr, hu⟩

def callerScan : List (ScanAct Nat Unit) :=
  [.begin () ⟨['c'], [['u'], []]⟩ [['c'], ['r']], .drop ['x'], .scan () 7, .put () fun _ => true]

theorem get_own_undropped_callerScan :
    ∃ s, ((scanCache Nat Unit).guard fun s a => s.isPlain a).run (start true) callerScan = some s ∧
      s.cache.get (fun _ => true) ⟨['c'], [['u'], []]⟩ = some 7 ∧
      ∃ i scan, s.scans i = some scan ∧ scan.key.ownerTable = ['c'] ∧
        scan.key.parts = [['u'], []] ∧ scan.rows = some 7 ∧ s.Undropped i scan.token.dependsOn := by
  exact StepSystem.exists_run_and _ (by decide +kernel) fun s hr hg =>
    get_own_undropped hr (by decide) hg

def separatedScan : List (ScanAct Nat Unit) :=
  [.begin () ⟨['c'], [['u', '|', 'v']]⟩ [['c']], .scan () 7, .put () fun _ => true]

/-- The one scan's rows are served to a caller whose key has other parts. -/
theorem get_of_other_key : ∃ s, (scanCache Nat Unit).run (start true) separatedScan = some s ∧
      (s.scans ()).map Scan.key = some ⟨['c'], [['u', '|', 'v']]⟩ ∧
      s.cache.get (fun _ => true) ⟨['c'], [['u'], ['v']]⟩ = some 7 :=
  StepSystem.exists_run_of_any _ (by decide +kernel)

end ScanRun

end ThreeTears
