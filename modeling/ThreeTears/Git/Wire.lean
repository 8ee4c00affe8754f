import Mathlib.Tactic.Common

/-!
# Rows on the wire

A row that a process forwards to the writer travels as JSON. A value JSON has no type for is sent
as an object of one key, and a mapping that could be taken for such an object is wrapped.
-/

namespace ThreeTears

inductive WireTag
  | datetime
  | date
  | uuid
  | decimal

namespace WireTag

def key : WireTag → String
  | datetime => "$datetime"
  | date => "$date"
  | uuid => "$uuid"
  | decimal => "$decimal"

def ofKey (key : String) : Option WireTag :=
  [datetime, date, uuid, decimal].find? fun k => k.key == key

@[simp] lemma ofKey_key (k : WireTag) : ofKey k.key = some k := by
  cases k <;> rfl

end WireTag

/-- What `json` writes and reads; a scalar is null, a boolean or a number. -/
inductive Json (S : Type)
  | scalar (s : S)
  | text (t : String)
  | arr (items : List (Json S))
  | obj (entries : List (String × Json S))

/-- What `isoformat` and `str` write is read back by the type's own constructor. -/
structure WireTypes (S : Type) where
  Val : WireTag → Type
  write : ∀ k, Val k → String
  read : ∀ k, Json S → Option (Val k)
  read_write : ∀ k x, read k (.text (write k x)) = some x

/-- Whether a text has a form, in which `0` stands for a digit and `f` for a hexadecimal one. -/
def hasForm (form text : List Char) : Bool :=
  form.length == text.length && (form.zip text).all fun (f, c) =>
    if f == '0' then c.isDigit
    else if f == 'f' then c.isDigit || "abcdef".toList.contains c
    else f == c

/-- What `isoformat` and `str` write of a value: a datetime in UTC, a date, a UUID, and a number
whose point is followed by two digits. -/
def WireTag.writes (k : WireTag) (text : String) : Bool :=
  match k with
  | datetime => hasForm "0000-00-00T00:00:00+00:00".toList text.toList
  | date => hasForm "0000-00-00".toList text.toList
  | uuid => hasForm "ffffffff-ffff-ffff-ffff-ffffffffffff".toList text.toList
  | decimal =>
    hasForm ".00".toList (text.toList.dropWhile Char.isDigit) && text.toList.head? != some '.'

/-- Each value as the text that is written of it. -/
def WireTypes.ofTexts (S : Type) : WireTypes S where
  Val k := { text : String // k.writes text }
  write _ x := x.1
  read
    | k, .text t => if h : k.writes t then some ⟨t, h⟩ else none
    | _, _ => none
  read_write k x := by simp [x.2]

inductive RowValue (S : Type) (W : WireTypes S)
  | scalar (s : S)
  | text (t : String)
  | typed (k : WireTag) (x : W.Val k)
  | list (items : List (RowValue S W))
  | tuple (items : List (RowValue S W))
  | mapping (entries : List (String × RowValue S W))

namespace RowValue

variable {S : Type} {W : WireTypes S}

def isTagLike (key : String) : Bool :=
  key.toList.head? == some '$'

/-- The object of a mapping's entries, which is wrapped if it looks like a tag. -/
def wrapped : List (String × Json S) → Json S
  | [(key, x)] => if isTagLike key then .obj [("$literal", .obj [(key, x)])] else .obj [(key, x)]
  | entries => .obj entries

mutual

def tag : RowValue S W → Json S
  | scalar s => .scalar s
  | text t => .text t
  | typed k x => .obj [(k.key, .text (W.write k x))]
  | list items => .arr (tagItems items)
  | tuple items => .arr (tagItems items)
  | mapping entries => wrapped (tagEntries entries)

def tagItems : List (RowValue S W) → List (Json S)
  | [] => []
  | x :: items => x.tag :: tagItems items

def tagEntries : List (String × RowValue S W) → List (String × Json S)
  | [] => []
  | (key, x) :: entries => (key, x.tag) :: tagEntries entries

end

mutual

/-- `none` where `_untag` raises: a tag whose value is not read, or a wrapping of no object. -/
def untag : Json S → Option (RowValue S W)
  | .scalar s => some (scalar s)
  | .text t => some (text t)
  | .arr items => (untagItems items).map list
  | .obj [(key, x)] =>
    match WireTag.ofKey key, key == "$literal", x with
    | some k, _, x => (W.read k x).map (typed k)
    | none, true, .obj entries => (untagEntries entries).map mapping
    | none, true, _ => none
    | none, false, x => (untag x).map fun y => mapping [(key, y)]
  | .obj entries => (untagEntries entries).map mapping

def untagItems : List (Json S) → Option (List (RowValue S W))
  | [] => some []
  | x :: items => do return (← untag x) :: (← untagItems items)

def untagEntries : List (String × Json S) → Option (List (String × RowValue S W))
  | [] => some []
  | (key, x) :: entries => do return (key, ← untag x) :: (← untagEntries entries)

end

mutual

/-- The value with every tuple as a list, which JSON makes of it. -/
def listed : RowValue S W → RowValue S W
  | list items => list (listedItems items)
  | tuple items => list (listedItems items)
  | mapping entries => mapping (listedEntries entries)
  | x => x

def listedItems : List (RowValue S W) → List (RowValue S W)
  | [] => []
  | x :: items => x.listed :: listedItems items

def listedEntries : List (String × RowValue S W) → List (String × RowValue S W)
  | [] => []
  | (key, x) :: entries => (key, x.listed) :: listedEntries entries

end

lemma isTagLike_of_ofKey {key : String} {k : WireTag} (h : WireTag.ofKey key = some k) :
    isTagLike key := by
  have hk : k.key = key := by simpa using List.find?_some h
  subst hk
  cases k <;> rfl

/-- Decoding a mapping's object decodes its entries, as they look like no tag or are wrapped. -/
lemma untag_wrapped (entries : List (String × Json S)) :
    untag (W := W) (wrapped entries) = (untagEntries entries).map mapping := by
  match entries with
  | [] => rfl
  | [(key, x)] =>
    rw [wrapped]
    split_ifs with hd
    · rw [untag.eq_def]
      rfl
    · have hk : WireTag.ofKey key = none := by
        by_contra hne
        obtain ⟨k, hk⟩ := Option.ne_none_iff_exists'.mp hne
        exact hd (isTagLike_of_ofKey hk)
      have hl : (key == "$literal") = false := by
        by_contra hne
        have : key = "$literal" := by simpa using hne
        subst this
        exact hd rfl
      rw [untag.eq_def]
      cases hx : untag (W := W) x <;> simp [hk, hl, untagEntries, hx]
  | _ :: _ :: _ => rfl

mutual

lemma untag_tag (v : RowValue S W) : untag v.tag = some v.listed := by
  match v with
  | scalar s => rfl
  | text t => rfl
  | typed k x => simp [tag, untag, listed, W.read_write]
  | list items => simp [tag, untag, listed, untagItems_tagItems items]
  | tuple items => simp [tag, untag, listed, untagItems_tagItems items]
  | mapping entries => simp [tag, untag_wrapped, listed, untagEntries_tagEntries entries]

lemma untagItems_tagItems (items : List (RowValue S W)) :
    untagItems (tagItems items) = some (listedItems items) := by
  match items with
  | [] => rfl
  | x :: items => simp [tagItems, untagItems, listedItems, untag_tag x, untagItems_tagItems items]

lemma untagEntries_tagEntries (entries : List (String × RowValue S W)) :
    untagEntries (tagEntries entries) = some (listedEntries entries) := by
  match entries with
  | [] => rfl
  | (key, x) :: entries =>
    simp [tagEntries, untagEntries, listedEntries, untag_tag x, untagEntries_tagEntries entries]

end

def encodeRows (rows : List (RowValue S W)) : Json S :=
  .arr (tagItems rows)

/-- What is no list is taken as Python takes it: a text by its characters, an object by its keys. -/
def decodeRows : Json S → Option (List (RowValue S W))
  | .arr items => untagItems items
  | .obj entries => some (entries.map fun e => text e.1)
  | .text t => some (t.toList.map fun c => text (String.singleton c))
  | .scalar _ => none

/-- Rows of any values, however nested and whatever their keys look like, arrive with every value of
the type it was sent with, but for tuples. -/
theorem decodeRows_encodeRows (rows : List (RowValue S W)) :
    decodeRows (encodeRows rows) = some (listedItems rows) :=
  untagItems_tagItems rows

/-- A row with a UUID and a price, and a document whose keys are those of a tag and of a wrapping.
-/
def taggedRow : RowValue Int (.ofTexts Int) :=
  mapping [("id", typed .uuid ⟨"01234567-89ab-cdef-0123-456789abcdef", by decide⟩),
    ("doc", mapping [("$uuid", list [mapping [("$literal", text "x")],
      typed .decimal ⟨"12.50", by decide⟩])])]

theorem decodeRows_encodeRows_tagged :
    encodeRows [taggedRow] = .arr [.obj [
      ("id", .obj [("$uuid", .text "01234567-89ab-cdef-0123-456789abcdef")]),
      ("doc", .obj [("$literal", .obj [("$uuid", .arr [
        .obj [("$literal", .obj [("$literal", .text "x")])],
        .obj [("$decimal", .text "12.50")]])])])]] ∧
    decodeRows (encodeRows [taggedRow]) = some [taggedRow] :=
  ⟨rfl, decodeRows_encodeRows [taggedRow]⟩

end RowValue

end ThreeTears
