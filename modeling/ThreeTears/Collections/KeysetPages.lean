import Mathlib.Data.List.Basic

/-!
# Reading a table by pages

A keyset read asks for the rows past the key of the last row kept, one more than a page keeps, and
goes on while that one comes. `keyset_pages` takes a page as rows, `keyset_arrow_pages` as the Arrow
table of the rows: the rail's proxy answers one, and a direct pool's rows are made one, with each
value as the rail carries it.
-/

namespace ThreeTears

open List

variable {C V A O : Type*}

/-- What differs between the statements of one read: the cursor's values, and the `LIMIT`. -/
structure KeysetStatement (V : Type*) where
  past : Option (List V)
  limit : Nat
  deriving DecidableEq

/-- Why a read yields no further page; `unfinished` is the model's, for want of fuel. -/
inductive KeysetError
  | pageSize (message : String)
  | notOfType
  | unfinished

/-- What the two loops do with a page. -/
structure PageOps (A V : Type*) where
  numRows : A → Nat
  slice : Nat → A → A
  lastKey : A → Option (List V)

/-- The loop: the statements and what was kept of each answer. -/
def keysetLoop (ops : PageOps A V) (fetch : KeysetStatement V → Except KeysetError A) (size : Nat) :
    Nat → Option (List V) → Except KeysetError (List (KeysetStatement V × A))
  | 0, _ => .error .unfinished
  | fuel + 1, cursor =>
    (fetch ⟨cursor, size + 1⟩).bind fun page =>
      let kept := ops.slice size page
      if size < ops.numRows page ∧ 0 < ops.numRows kept then
        (keysetLoop ops fetch size fuel (ops.lastKey kept)).map ((⟨cursor, size + 1⟩, kept) :: ·)
      else .ok [(⟨cursor, size + 1⟩, kept)]

def keysetRead (ops : PageOps A V) (fetch : KeysetStatement V → Except KeysetError A)
    (size fuel : Nat) : Except KeysetError (List (KeysetStatement V × A)) :=
  if size < 1 then .error (.pageSize s!"a keyset page keeps at least one row, got {size}")
  else keysetLoop ops fetch size fuel none

/-- The key of a row. -/
def tupleOf (key : List C) (row : C → V) : List V := key.map row

def rowOps (key : List C) : PageOps (List (C → V)) V where
  numRows := length
  slice := take
  lastKey rows := rows.getLast?.map (tupleOf key)

def keysetPages (key : List C) (fetch : KeysetStatement V → List (C → V)) :=
  keysetRead (rowOps key) fun s => .ok (fetch s)

/-! ### Pages as Arrow tables -/

/-- A value as an L3 answers it; `other` is a UUID, a `Decimal`, bytes. -/
inductive L3Value (O : Type*)
  | none
  | text (value : String)
  | int (value : Int)
  | bool (value : Bool)
  | datetime (isoformat : String)
  | other (value : O)
  deriving DecidableEq

/-- The Arrow types of `rail_arrow_types`. -/
inductive ArrowType
  | string
  | int64
  | bool
  | instant
  deriving DecidableEq

def ArrowType.holds : ArrowType → L3Value O → Bool
  | _, .none => true
  | .string, .text _ => true
  | .int64, .int n => n.toNat < 9223372036854775808 ∧ (-n).toNat ≤ 9223372036854775808
  | .bool, .bool _ => true
  | .instant, .datetime _ => true
  | _, _ => false

/-- `_rail_value`; `str` is that of the values that have no constructor of their own. -/
def railValue (str : O → String) (kind : ArrowType) (value : L3Value O) : L3Value O :=
  if kind = .string then
    match value with
    | .none => .none
    | .text value => .text value
    | .int value => .text (toString value)
    | .bool value => .text (if value then "True" else "False")
    | .datetime isoformat => .text (isoformat.replace "+00:00" "Z")
    | .other value => .text (str value)
  else value

structure ArrowTypes (C : Type*) where
  columns : List C
  kind : C → ArrowType

/-- The rail's proxy is an `ArrowL3Reader`, and a direct pool is none. -/
inductive L3Kind
  | rail
  | pool

/-- A row that `fetch` answers, as the Arrow table of the answer has it. -/
def L3Kind.carried (str : O → String) (types : ArrowTypes C) :
    L3Kind → (C → L3Value O) → C → L3Value O
  | .rail, row => row
  | .pool, row => fun c => railValue str (types.kind c) (row c)

structure ArrowTable (C V : Type*) where
  numRows : Nat
  column : C → List V

def ArrowTable.ofRows (rows : List (C → V)) : ArrowTable C V :=
  ⟨rows.length, fun c => rows.map (· c)⟩

def arrowOps (key : List C) : PageOps (ArrowTable C V) V where
  numRows := ArrowTable.numRows
  slice n t := ⟨min n t.numRows, fun c => (t.column c).take n⟩
  lastKey t := if t.numRows = 0 then none else some (key.filterMap fun c => (t.column c).getLast?)

/-- `l3_fetch_arrow` of the rows that `fetch` answers: both ways refuse a value that its column's
type does not hold. -/
def l3FetchArrow (str : O → String) (types : ArrowTypes C) (l3 : L3Kind)
    (rows : List (C → L3Value O)) : Except KeysetError (ArrowTable C (L3Value O)) :=
  let carried := rows.map (l3.carried str types)
  if ∀ row ∈ carried, ∀ c ∈ types.columns, (types.kind c).holds (row c) then .ok (.ofRows carried)
  else .error .notOfType

def keysetArrowPages (str : O → String) (types : ArrowTypes C) (l3 : L3Kind) (key : List C)
    (fetch : KeysetStatement (L3Value O) → List (C → L3Value O)) :=
  keysetRead (arrowOps key) fun s => l3FetchArrow str types l3 (fetch s)

/-- The row fits its Arrow types, and its key is carried as it is. -/
def Carries (str : O → String) (types : ArrowTypes C) (l3 : L3Kind) (key : List C)
    (row : C → L3Value O) : Prop :=
  (∀ c ∈ types.columns, (types.kind c).holds (l3.carried str types row c)) ∧
    ∀ c ∈ key, l3.carried str types row c = row c

instance [DecidableEq O] (str : O → String) (types : ArrowTypes C) (l3 : L3Kind) (key : List C)
    (row : C → L3Value O) : Decidable (Carries str types l3 key row) :=
  inferInstanceAs (Decidable (_ ∧ _))

variable {key : List C} {size cap fuel : Nat} {rows done rest : List (C → V)}
  {cursor : Option (List V)}

lemma numRows_ofRows : (arrowOps key).numRows (.ofRows rows) = (rowOps key).numRows rows := rfl

lemma lastKey_ofRows : (arrowOps key).lastKey (.ofRows rows) = (rowOps key).lastKey rows := by
  rcases eq_nil_or_concat' rows with rfl | ⟨before, row, rfl⟩
  · rfl
  · simp [arrowOps, rowOps, ArrowTable.ofRows, tupleOf]

lemma slice_ofRows :
    (arrowOps key).slice size (.ofRows rows) = .ofRows ((rowOps key).slice size rows) := by
  simp [arrowOps, rowOps, ArrowTable.ofRows, map_take]

section

variable {str : O → String} {types : ArrowTypes C} {l3 : L3Kind}
  {fetch : KeysetStatement (L3Value O) → List (C → L3Value O)}

lemma l3FetchArrow_of_carries {rows : List (C → L3Value O)}
    (h : ∀ row ∈ rows, Carries str types l3 key row) :
    l3FetchArrow str types l3 rows = .ok (.ofRows (rows.map (l3.carried str types))) :=
  if_pos fun _ hrow => by
    obtain ⟨row, hr, rfl⟩ := mem_map.1 hrow
    exact (h row hr).1

lemma lastKey_carried {rows : List (C → L3Value O)}
    (h : ∀ row ∈ rows, Carries str types l3 key row) :
    (rowOps key).lastKey (rows.map (l3.carried str types)) = (rowOps key).lastKey rows := by
  simp only [rowOps, getLast?_map, Option.map_map]
  refine Option.map_congr fun row hrow => ?_
  exact map_congr_left (h row (mem_of_getLast? hrow)).2

/-- Page by page, the loop over Arrow tables does what the loop over rows does. -/
lemma keysetLoop_arrow (h : ∀ s, ∀ row ∈ fetch s, Carries str types l3 key row)
    {cursor : Option (List (L3Value O))} :
    keysetLoop (arrowOps key) (fun s => l3FetchArrow str types l3 (fetch s)) size fuel cursor =
      (keysetLoop (rowOps key) (fun s => .ok (fetch s)) size fuel cursor).map
        (map fun p => (p.1, .ofRows (p.2.map (l3.carried str types)))) := by
  induction fuel generalizing cursor with
  | zero => rfl
  | succ fuel ih =>
    have hk : ∀ row ∈ (rowOps key).slice size (fetch ⟨cursor, size + 1⟩),
        Carries str types l3 key row := fun row hrow => h _ row (mem_of_mem_take hrow)
    have hsl : (rowOps key).slice size ((fetch ⟨cursor, size + 1⟩).map (l3.carried str types)) =
        ((rowOps key).slice size (fetch ⟨cursor, size + 1⟩)).map (l3.carried str types) :=
      map_take.symm
    have hnu : ∀ rows : List (C → L3Value O),
        (rowOps key).numRows (rows.map (l3.carried str types)) = (rowOps key).numRows rows :=
      fun rows => length_map _
    rw [keysetLoop, keysetLoop, l3FetchArrow_of_carries (h ⟨cursor, size + 1⟩)]
    simp only [Except.bind, slice_ofRows, hsl, lastKey_ofRows, lastKey_carried hk, ih,
      numRows_ofRows, hnu]
    split_ifs
    · cases keysetLoop (rowOps key) (fun s => .ok (fetch s)) size fuel
        ((rowOps key).lastKey ((rowOps key).slice size (fetch ⟨cursor, size + 1⟩))) <;> rfl
    · rfl

end

/-- The rows that the filters name, in the order of their keys. -/
structure KeysetRows (key : List C) (V : Type*) where
  lt : List V → List V → Bool
  asymm : ∀ {a b}, lt a b → ¬lt b a
  rows : List (C → V)
  sorted : rows.Pairwise fun r r' => lt (tupleOf key r) (tupleOf key r')

/-- A transport that answers at most `cap` rows. -/
def KeysetRows.answer (t : KeysetRows key V) (cap : Nat) (s : KeysetStatement V) : List (C → V) :=
  (t.rows.filter fun r => s.past.all (t.lt · (tupleOf key r))).take (min s.limit cap)

variable {t : KeysetRows key V}

lemma filter_past (h : t.rows = done ++ rest) :
    t.rows.filter (fun r => ((rowOps key).lastKey done).all (t.lt · (tupleOf key r))) = rest := by
  obtain ⟨hd, -, hc⟩ := pairwise_append.1 (h ▸ t.sorted)
  rcases eq_nil_or_concat' done with rfl | ⟨before, row, rfl⟩
  · simpa [rowOps] using h
  rw [h, filter_append, filter_eq_nil_iff.2, filter_eq_self.2, nil_append]
  · simpa [rowOps] using hc row (by simp)
  · intro r hr
    have ho : ¬t.lt (tupleOf key row) (tupleOf key r) := by
      rcases mem_append.1 hr with hr | hr
      · exact t.asymm ((pairwise_append.1 hd).2.2 r hr row (by simp))
      · rw [mem_singleton.1 hr]
        exact fun h => t.asymm h h
    simpa [rowOps] using ho

lemma keysetLoop_rest (hsize : 1 ≤ size) (hcap : size + 1 ≤ cap) (hfuel : rest.length < fuel)
    (hr : t.rows = done ++ rest) :
    ∃ pages, keysetLoop (rowOps key) (fun s => .ok (t.answer cap s)) size fuel
        ((rowOps key).lastKey done) = .ok pages ∧
      (pages.map Prod.snd).flatten = rest ∧ ∀ p ∈ pages.dropLast, p.2.length = size := by
  induction fuel generalizing done rest with
  | zero => omega
  | succ fuel ih =>
    have hpa : t.answer cap ⟨(rowOps key).lastKey done, size + 1⟩ = rest.take (size + 1) := by
      rw [KeysetRows.answer, filter_past hr, Nat.min_eq_left hcap]
    have hk : (rowOps key).slice size (rest.take (size + 1)) = rest.take size := by
      simp [rowOps, take_take]
    have hc : (size < (rowOps key).numRows (rest.take (size + 1)) ∧
        0 < (rowOps key).numRows (rest.take size)) ↔ size < rest.length := by
      simp only [rowOps, length_take]
      omega
    simp only [keysetLoop, hpa, Except.bind, hk, hc]
    split_ifs with hm
    · have hl : (rowOps key).lastKey (rest.take size) =
          (rowOps key).lastKey (done ++ rest.take size) := by
        have he : rest.take size ≠ [] := ne_nil_of_length_pos (by rw [length_take]; omega)
        simp [rowOps, getLast?_append_of_ne_nil _ he]
      have hd : t.rows = done ++ rest.take size ++ rest.drop size := by simpa using hr
      obtain ⟨pages, ho, hfl, hu⟩ := ih (by rw [length_drop]; omega) hd
      rw [hl, ho]
      refine ⟨_, rfl, by simp [hfl], fun p hp => ?_⟩
      cases pages with
      | nil => cases hp
      | cons =>
        rcases mem_cons.1 hp with rfl | hp
        · exact length_take_of_le (Nat.le_of_lt hm)
        · exact hu p hp
    · exact ⟨_, rfl, by simp [take_of_length_le (Nat.not_lt.1 hm)], by simp⟩

/-- Every read with fuel for its rows ends: its pages are the rows in key order and all but the last
are full. If every row's key is carried as it is, the read as Arrow tables sends the same statements
and yields the same rows, each as the rail carries it. -/
theorem keyset_read_exact (str : O → String) (types : ArrowTypes C) (l3 : L3Kind)
    (t : KeysetRows key (L3Value O)) (hsize : 1 ≤ size) (hcap : size + 1 ≤ cap)
    (hfuel : t.rows.length < fuel) :
    ∃ pages, keysetPages key (t.answer cap) size fuel = .ok pages ∧
      (pages.map Prod.snd).flatten = t.rows ∧ (∀ p ∈ pages.dropLast, p.2.length = size) ∧
      ((∀ row ∈ t.rows, Carries str types l3 key row) →
        keysetArrowPages str types l3 key (t.answer cap) size fuel =
          .ok (pages.map fun p => (p.1, .ofRows (p.2.map (l3.carried str types))))) := by
  obtain ⟨pages, (hl : keysetLoop _ _ _ _ none = _), hfl, hu⟩ :=
    keysetLoop_rest hsize hcap hfuel (nil_append _).symm
  refine ⟨pages, ?_, hfl, hu, fun hcar => ?_⟩
  · rw [keysetPages, keysetRead, if_neg (by omega), hl]
  have hrows : ∀ s, ∀ row ∈ t.answer cap s, Carries str types l3 key row :=
    fun s row hrow => hcar row (mem_of_mem_filter (mem_of_mem_take hrow))
  rw [keysetArrowPages, keysetRead, if_neg (by omega), keysetLoop_arrow hrows, hl]
  rfl

section Uuids

/-- Where the database puts a number and one of two UUIDs, which it reads from its text too. -/
def rank : List (L3Value Bool) → Nat
  | [.int n] => n.toNat
  | [.other uuid] => uuid.toNat
  | [.text "true"] => 1
  | _ => 0

/-- Two rows of a number (in column `false`) and a UUID (in `true`), in the order of a column. -/
def twoRows (c : Bool) : KeysetRows [c] (L3Value Bool) where
  lt a b := Nat.blt (rank a) (rank b)
  asymm := by grind [Nat.blt_eq]
  rows := [fun c => if c then .other false else .int 1, fun c => if c then .other true else .int 2]
  sorted := by cases c <;> decide

def twoTypes : ArrowTypes Bool := ⟨[false, true], fun c => if c then .string else .int64⟩

theorem keyset_read_exact_two :
    ∃ pages, keysetPages [false] ((twoRows false).answer 2) 1 3 = .ok pages ∧
      (pages.map Prod.snd).flatten = (twoRows false).rows ∧
      keysetArrowPages toString twoTypes .pool [false] ((twoRows false).answer 2) 1 3 =
        .ok (pages.map fun p =>
          (p.1, .ofRows (p.2.map (L3Kind.pool.carried toString twoTypes)))) := by
  obtain ⟨pages, hread, hl, -, har⟩ := keyset_read_exact toString twoTypes .pool (twoRows false)
    (Nat.le_refl 1) (Nat.le_refl 2) (Nat.lt_add_one 2)
  exact ⟨pages, hread, hl, har (by decide)⟩

/-- Over a direct pool the second page by a UUID is asked for past its text. -/
theorem arrow_cursor_is_text :
    ∃ pages tables, keysetPages [true] ((twoRows true).answer 2) 1 3 = .ok pages ∧
      keysetArrowPages toString twoTypes .pool [true] ((twoRows true).answer 2) 1 3 = .ok tables ∧
      pages.map Prod.fst ≠ tables.map Prod.fst :=
  ⟨_, _, rfl, rfl, by decide⟩

end Uuids

end ThreeTears
