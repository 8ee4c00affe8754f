import ThreeTears.Lib.Dict
import Mathlib.Data.Nat.Digits.Defs

/-!
# Generation marks

A table's write generation is a token `{incarnation}:{count}`. `GenerationMarks` keeps, for a
followed table, the count up to which every advance is accounted for, and the advances beyond it of
which rows were heard. A table is current when the generation just read is not beyond the mark.
-/

namespace ThreeTears

abbrev Text := List Char

def rpartition (separator : Char) : Text → Option (Text × Text)
  | [] => none
  | c :: cs =>
    match rpartition separator cs with
    | some (before, after) => some (c :: before, after)
    | none => if c = separator then some ([], cs) else none

def generationToken (incarnation : Text) (count : Nat) : Text :=
  incarnation ++ ':' :: Nat.toDigits 10 count

/-- The zeros of the scripts whose ten digits follow one another; `int` reads them all. -/
def decimalZeros : List Nat :=
  [0x30, 0x660, 0x6F0, 0x7C0, 0x966, 0x9E6, 0xA66, 0xAE6, 0xB66, 0xBE6, 0xC66, 0xCE6, 0xD66,
    0xDE6, 0xE50, 0xED0, 0xF20, 0x1040, 0x1090, 0x17E0, 0x1810, 0x1946, 0x19D0, 0x1A80, 0x1A90,
    0x1B50, 0x1BB0, 0x1C40, 0x1C50, 0xA620, 0xA8D0, 0xA900, 0xA9D0, 0xA9F0, 0xAA50, 0xABF0,
    0xFF10, 0x104A0, 0x10D30, 0x10D40, 0x11066, 0x110F0, 0x11136, 0x111D0, 0x112F0, 0x11450,
    0x114D0, 0x11650, 0x116C0, 0x116D0, 0x116DA, 0x11730, 0x118E0, 0x11950, 0x11BF0, 0x11C50,
    0x11D50, 0x11DA0, 0x11F50, 0x16130, 0x16A60, 0x16AC0, 0x16B50, 0x16D70, 0x1CCF0, 0x1D7CE,
    0x1D7D8, 0x1D7E2, 0x1D7EC, 0x1D7F6, 0x1E140, 0x1E2F0, 0x1E4F0, 0x1E5F1, 0x1E950, 0x1FBF0]

/-- The other characters that `str.isdigit` takes, such as `²` and `①`; `int` refuses them. -/
def otherDigits : List (Nat × Nat) :=
  [(0xB2, 0xB3), (0xB9, 0xB9), (0x1369, 0x1371), (0x19DA, 0x19DA), (0x2070, 0x2070),
    (0x2074, 0x2079), (0x2080, 0x2089), (0x2460, 0x2468), (0x2474, 0x247C), (0x2488, 0x2490),
    (0x24EA, 0x24EA), (0x24F5, 0x24FD), (0x24FF, 0x24FF), (0x2776, 0x277E), (0x2780, 0x2788),
    (0x278A, 0x2792), (0x10A40, 0x10A43), (0x10E60, 0x10E68), (0x11052, 0x1105A),
    (0x1F100, 0x1F10A)]

/-- What a character is worth to `int`. -/
def decimalDigit (c : Char) : Option Nat :=
  (decimalZeros.find? fun nought => nought ≤ c.toNat ∧ c.toNat < nought + 10).map (c.toNat - ·)

def isdigit (text : Text) : Bool :=
  text ≠ [] ∧ text.all fun c => (decimalDigit c).isSome ∨
    otherDigits.any fun (first, last) => first ≤ c.toNat ∧ c.toNat ≤ last

inductive ValueError
  | invalidLiteral
  deriving DecidableEq

/-- `int` of a text of digits. -/
def intOfDigits (text : Text) : Except ValueError Nat :=
  if text.all fun c => (decimalDigit c).isSome then
    .ok (text.foldl (fun value c => 10 * value + (decimalDigit c).getD 0) 0)
  else .error .invalidLiteral

def splitGenerationToken (token : Text) : Except ValueError (Option (Text × Nat)) :=
  match rpartition ':' token with
  | some (incarnation, count) =>
    if incarnation = [] ∨ ¬isdigit count then .ok none
    else (intOfDigits count).map fun value => some (incarnation, value)
  | none => .ok none

inductive GenerationVerdict
  | current
  | firstSight
  | replaced
  | missed
  deriving DecidableEq

def GenerationVerdict.drops (verdict : GenerationVerdict) : Bool := verdict ≠ .current

def maxRememberedAdvances : Nat := 4096

structure Heard where
  rows : Nat
  of : Nat
  deriving DecidableEq

structure TableMark where
  sighted : Bool
  incarnation : Option Text
  accounted : Nat
  heard : Dict (Text × Nat) Heard
  overflowed : Bool

namespace TableMark

def unsighted : TableMark where
  sighted := false
  incarnation := none
  accounted := 0
  heard := .empty
  overflowed := false

/-- The loop of `_move_on`, for at most `fuel` rounds. -/
def moveOnFrom (incarnation : Text) : Nat → TableMark → TableMark
  | 0, mark => mark
  | fuel + 1, mark =>
    match mark.heard.get (incarnation, mark.accounted + 1) with
    | some following =>
      if following.rows < following.of then mark
      else moveOnFrom incarnation fuel { mark with
        heard := mark.heard.erase (incarnation, mark.accounted + 1)
        accounted := mark.accounted + 1 }
    | none => mark

/-- `_move_on`: past every advance heard in full that directly follows the mark. Each round takes
one advance out of `heard`. -/
def moveOn (mark : TableMark) : TableMark :=
  if mark.sighted then
    match mark.incarnation with
    | some incarnation => moveOnFrom incarnation mark.heard.entries.length mark
    | none => mark
  else mark

def Counts (mark : TableMark) (advance : Text × Nat) : Prop :=
  mark.sighted = true ∧ mark.incarnation = some advance.1 ∧ advance.2 ≤ mark.accounted
deriving Decidable

/-- `_record`. A token that cannot be split leaves the mark as it is, and so does one whose split
raises. -/
def record (mark : TableMark) (token : Text) (rows of : Nat) : TableMark :=
  match splitGenerationToken token with
  | .error _ | .ok none => mark
  | .ok (some advance) =>
    if of < 1 ∨ mark.Counts advance then mark
    else
      match mark.heard.get advance with
      | some heard =>
        { mark with
          heard := mark.heard.set advance { heard with rows := heard.rows + rows } }.moveOn
      | none =>
        if maxRememberedAdvances ≤ mark.heard.entries.length then { mark with overflowed := true }
        else { mark with heard := mark.heard.set advance ⟨rows, of⟩ }.moveOn

def hear (mark : TableMark) (token : Text) (bumpRows : Nat) : TableMark :=
  mark.record token 1 bumpRows

def account (mark : TableMark) (token : Text) : TableMark := mark.record token 1 1

/-- `_parts`: a token that cannot be split is an incarnation of its own at count zero. -/
def parts : Option Text → Except ValueError (Option Text × Nat)
  | none => .ok (none, 0)
  | some token => (splitGenerationToken token).map fun
    | some (incarnation, count) => (some incarnation, count)
    | none => (some token, 0)

/-- The verdict of `judge` on a generation's parts. -/
def verdict (mark : TableMark) (generation : Option Text × Nat) : GenerationVerdict :=
  if mark.sighted = false then .firstSight
  else if generation.1 ≠ mark.incarnation then .replaced
  else if mark.accounted < generation.2 ∨ mark.overflowed = true then .missed
  else .current

def judge (mark : TableMark) (token : Option Text) : Except ValueError GenerationVerdict :=
  (parts token).map mark.verdict

def retake (mark : TableMark) (incarnation : Option Text) (count : Nat) : TableMark :=
  { sighted := true
    incarnation := incarnation
    accounted := count
    heard := mark.heard.filter fun advance => some advance.1 = incarnation ∧ count < advance.2
    overflowed := false : TableMark }.moveOn

/-- `settle`, which raises before it has changed the mark. -/
def settle (mark : TableMark) (token : Option Text) :
    Except ValueError (TableMark × GenerationVerdict) := do
  let (incarnation, count) ← parts token
  let verdict := mark.verdict (incarnation, count)
  return (if verdict.drops then mark.retake incarnation count else mark, verdict)

def adopt (theirs : Option TableMark) : TableMark := theirs.getD unsighted

end TableMark

/-! ### Tokens -/

lemma rpartition_append {sep : Char} {before after : Text} (h : sep ∉ after) :
    rpartition sep (before ++ sep :: after) = some (before, after) := by
  have hnone : ∀ cs : Text, sep ∉ cs → rpartition sep cs = none := by
    intro cs hc
    induction cs with
    | nil => rfl
    | cons _ _ ih =>
      rw [List.mem_cons, not_or] at hc
      simp [rpartition, ih hc.2, Ne.symm hc.1]
  induction before with
  | nil => simp [rpartition, hnone after h]
  | cons _ _ ih => simp [rpartition, ih]

lemma decimalDigit_of_isDigit {c : Char} (h : c.isDigit = true) :
    decimalDigit c = some (c.toNat - 48) := by
  have hc : 48 ≤ c.toNat ∧ c.toNat < 58 := by
    obtain ⟨hle, hlt⟩ := Char.isDigit_iff_toNat.1 h
    exact ⟨hle, Nat.lt_succ_of_le hlt⟩
  rw [decimalDigit, decimalZeros, List.find?_cons_of_pos (by simpa using hc)]
  rfl

section

variable {text : Text} (hd : ∀ c ∈ text, c.isDigit = true)
include hd

lemma isdigit_of_ascii (h : text ≠ []) : isdigit text = true := by
  simp only [isdigit, decide_eq_true_eq, List.all_eq_true]
  refine ⟨h, fun c hc => .inl ?_⟩
  rw [decimalDigit_of_isDigit (hd c hc)]
  rfl

lemma intOfDigits_of_ascii : intOfDigits text = .ok (Nat.ofDigitChars 10 text 0) := by
  have hall : text.all fun c => (decimalDigit c).isSome := by
    refine List.all_eq_true.2 fun c hc => ?_
    rw [decimalDigit_of_isDigit (hd c hc)]
    rfl
  rw [intOfDigits, if_pos hall, Nat.ofDigitChars]
  refine congrArg _ (List.foldl_ext _ _ _ fun value c hc => ?_)
  rw [decimalDigit_of_isDigit (hd c hc)]
  rfl

end

lemma splitGenerationToken_generationToken {incarnation : Text} (h : incarnation ≠ [])
    (count : Nat) :
    splitGenerationToken (generationToken incarnation count) = .ok (some (incarnation, count)) := by
  have hd : ∀ c ∈ Nat.toDigits 10 count, c.isDigit = true :=
    fun c hc => Nat.isDigit_of_mem_toDigits (by decide) (by decide) hc
  have he : ':' ∉ Nat.toDigits 10 count := fun hmem => absurd (hd _ hmem) (by decide)
  rw [splitGenerationToken, generationToken, rpartition_append he]
  simp [h, isdigit_of_ascii hd Nat.toDigits_ne_nil, intOfDigits_of_ascii hd,
    Nat.ofDigitChars_toDigits, Except.map]

/-! ### Moving the mark on -/

namespace TableMark

variable {mark : TableMark} {incarnation : Text}

lemma moveOn_induction {I : TableMark → Prop} (h : I mark)
    (ht : ∀ m incarnation following, I m → m.sighted = true → m.incarnation = some incarnation →
      m.heard.get (incarnation, m.accounted + 1) = some following → following.of ≤ following.rows →
      I { m with
        heard := m.heard.erase (incarnation, m.accounted + 1)
        accounted := m.accounted + 1 }) : I mark.moveOn := by
  have hl : ∀ fuel incarnation m, I m → m.sighted = true → m.incarnation = some incarnation →
      I (moveOnFrom incarnation fuel m) := by
    intro fuel incarnation
    induction fuel with
    | zero => exact fun m hm _ _ => hm
    | succ _ ih =>
      intro m hm hsi hi
      simp only [moveOnFrom]
      split
      next following hg =>
        split_ifs with hlt
        · exact hm
        · exact ih _ (ht m _ following hm hsi hi hg (not_lt.1 hlt)) hsi hi
      next => exact hm
  unfold moveOn
  split_ifs with hsi
  · split
    next incarnation hi => exact hl _ incarnation mark h hsi hi
    next => exact h
  · exact h

/-- The advance after the mark has not been heard in full. -/
def Stuck (mark : TableMark) : Prop :=
  mark.sighted = true → ∀ incarnation, mark.incarnation = some incarnation →
    ∀ following, mark.heard.get (incarnation, mark.accounted + 1) = some following →
      following.rows < following.of

lemma stuck_moveOnFrom (fuel : Nat) (hu : mark.heard.entries.length ≤ fuel)
    (hi : mark.incarnation = some incarnation) : (moveOnFrom incarnation fuel mark).Stuck := by
  induction fuel generalizing mark with
  | zero =>
    intro _ inc _ following hg
    have hni : mark.heard.entries = [] := List.length_eq_zero_iff.1 (Nat.le_zero.1 hu)
    have hmem := Dict.get_eq_some_iff.1 hg
    rw [show (moveOnFrom incarnation 0 mark).heard.entries = mark.heard.entries from rfl, hni]
      at hmem
    cases hmem
  | succ _ ih =>
    simp only [moveOnFrom]
    split
    next hg =>
      split_ifs with hlt
      · intro _ inc hi' following' hg'
        rw [hi] at hi'
        cases hi'
        rw [hg] at hg'
        cases hg'
        exact hlt
      have hl := Dict.length_erase_lt hg
      exact ih (by simp only; omega) hi
    next hnone =>
      intro _ inc hi' following' hg'
      rw [hi] at hi'
      cases hi'
      rw [hnone] at hg'
      cases hg'

lemma stuck_moveOn : mark.moveOn.Stuck := by
  unfold moveOn
  split_ifs with hsi
  · split
    next hi => exact stuck_moveOnFrom _ le_rfl hi
    next hi =>
      intro _ incarnation hi'
      rw [hi] at hi'
      cases hi'
  intro hs'
  exact absurd hs' hsi

lemma overflowed_moveOn : mark.moveOn.overflowed = mark.overflowed := by
  refine moveOn_induction (I := fun m => m.overflowed = mark.overflowed) rfl ?_
  intro m _ _ hm _ _ _ _
  exact hm

lemma overflowed_retake {incarnation : Option Text} {cou : Nat} :
    (mark.retake incarnation cou).overflowed = false := overflowed_moveOn

lemma stuck_retake {incarnation : Option Text} {cou : Nat} :
    (mark.retake incarnation cou).Stuck := stuck_moveOn

lemma record_cases (mark : TableMark) {adv : Text × Nat} (h : adv.1 ≠ []) (rows of : Nat) :
    (of < 1 ∨ mark.Counts adv) ∧
        mark.record (generationToken adv.1 adv.2) rows of = mark ∨
      ¬ mark.Counts adv ∧ (∃ heard, mark.heard.get adv = some heard ∧
        mark.record (generationToken adv.1 adv.2) rows of = { mark with
            heard := mark.heard.set adv { heard with rows := heard.rows + rows } }.moveOn) ∨
      ¬ mark.Counts adv ∧ mark.heard.get adv = none ∧
        (mark.record (generationToken adv.1 adv.2) rows of =
            { mark with overflowed := true } ∨
          mark.record (generationToken adv.1 adv.2) rows of =
            { mark with heard := mark.heard.set adv ⟨rows, of⟩ }.moveOn) := by
  unfold record
  rw [splitGenerationToken_generationToken h]
  simp only
  split_ifs with hk hu
  · exact .inl ⟨hk, rfl⟩
  · have hc : ¬ mark.Counts adv := fun hc => hk (.inr hc)
    cases hg : mark.heard.get adv with
    | none => exact .inr (.inr ⟨hc, rfl, .inl rfl⟩)
    | some heard => exact .inr (.inl ⟨hc, heard, rfl, rfl⟩)
  have hc : ¬ mark.Counts adv := fun hc => hk (.inr hc)
  cases hg : mark.heard.get adv with
  | none => exact .inr (.inr ⟨hc, rfl, .inr rfl⟩)
  | some heard => exact .inr (.inl ⟨hc, heard, rfl, rfl⟩)

lemma Stuck.record (h : mark.Stuck) {adv : Text × Nat} (hd : adv.1 ≠ []) {rows of : Nat}
    (hr : (mark.record (generationToken adv.1 adv.2) rows of).overflowed = false) :
    (mark.record (generationToken adv.1 adv.2) rows of).Stuck := by
  rcases mark.record_cases hd rows of with
    ⟨-, he⟩ | ⟨-, heard, -, he⟩ | ⟨-, -, he | he⟩
  all_goals rw [he] at hr ⊢
  · exact h
  · exact stuck_moveOn
  · cases hr
  · exact stuck_moveOn

lemma verdict_eq_current_iff {generation : Option Text × Nat} :
    mark.verdict generation = .current ↔ mark.sighted = true ∧ mark.incarnation = generation.1 ∧
      generation.2 ≤ mark.accounted ∧ mark.overflowed = false := by
  unfold verdict
  split_ifs with hsi hi hc
  · simp [hsi]
  · simp [Ne.symm hi]
  · simp only [false_iff]
    rintro ⟨-, -, hle, ho⟩
    rcases hc with hlt | ho'
    · omega
    rw [ho] at ho'
    cases ho'
  simp only [true_iff]
  rw [not_or, not_lt, Bool.not_eq_true] at hc
  exact ⟨Bool.not_eq_false _ ▸ hsi, (not_not.1 hi).symm, hc.1, hc.2⟩

lemma parts_generationToken {incarnation : Text} (h : incarnation ≠ []) (cou : Nat) :
    parts (some (generationToken incarnation cou)) = .ok (some incarnation, cou) := by
  rw [parts, splitGenerationToken_generationToken h]
  rfl

lemma settle_of_parts {token : Option Text} {generation : Option Text × Nat}
    (hp : parts token = .ok generation) : mark.settle token =
      .ok (if (mark.verdict generation).drops then mark.retake generation.1 generation.2 else mark,
        mark.verdict generation) := by
  rw [settle, hp]
  rfl

lemma judge_eq_current_iff {token : Option Text} {generation : Option Text × Nat}
    (hp : parts token = .ok generation) : mark.judge token = .ok .current ↔
      mark.sighted = true ∧ mark.incarnation = generation.1 ∧
        generation.2 ≤ mark.accounted ∧ mark.overflowed = false := by
  rw [← verdict_eq_current_iff, judge, hp]
  exact ⟨fun h => Except.ok.inj h, congrArg Except.ok⟩

/-- With nothing pending, a table marked at one token is current at another that is accepted, one
of which cannot be split, only when they are the same: exactly if the first does not name the other
as its incarnation and the other does not name the first, at count 0. -/
theorem current_opaque_iff {a b : Text} {split : Option (Text × Nat)} (hsight : mark.sighted = true)
    (hover : mark.overflowed = false)
    (hmark : parts (some a) = .ok (mark.incarnation, mark.accounted))
    (hsplit : splitGenerationToken b = .ok split)
    (hone : splitGenerationToken a = .ok none ∨ split = none) :
    (mark.judge (some b) = .ok .current → a = b) ↔
      (∀ count, splitGenerationToken a ≠ .ok (some (b, count))) ∧
        splitGenerationToken b ≠ .ok (some (a, 0)) := by
  cases hsp : splitGenerationToken a with
  | error => simp [parts, hsp, Except.map] at hmark
  | ok advance =>
    cases advance with
    | none =>
      obtain ⟨hi, hc⟩ : some a = mark.incarnation ∧ 0 = mark.accounted := by
        simpa [parts, hsp, Except.map] using hmark
      cases split with
      | none =>
        have hb : parts (some b) = .ok (some b, 0) := by rw [parts, hsplit]; rfl
        simp [judge_eq_current_iff hb, hsight, hover, hsplit, ← hi]
      | some advance =>
        have hb : parts (some b) = .ok (some advance.1, advance.2) := by rw [parts, hsplit]; rfl
        have he : a ≠ b := by
          rintro rfl
          cases hsp.symm.trans hsplit
        simp [judge_eq_current_iff hb, hsight, hover, hsplit, ← hi, ← hc, he, Prod.ext_iff, eq_comm]
    | some advance =>
      obtain ⟨hi, hc⟩ : some advance.1 = mark.incarnation ∧ advance.2 = mark.accounted := by
        simpa [parts, hsp, Except.map] using hmark
      obtain rfl : split = none := hone.resolve_left (by simp [hsp])
      have he : a ≠ b := by
        rintro rfl
        cases hsp.symm.trans hsplit
      have hb : parts (some b) = .ok (some b, 0) := by rw [parts, hsplit]; rfl
      simp [judge_eq_current_iff hb, hsight, hover, hsplit, ← hi, he, Prod.ext_iff]

/-- The mark that the first settle of a table leaves at a token. -/
def settledAt (token : Text) : TableMark :=
  match unsighted.settle (some token) with
  | .ok settled => settled.1
  | .error _ => unsighted

theorem current_opaque_iff_settled :
    ((settledAt ['g']).judge (some ['h', ':', '٣']) = .ok .current → ['g'] = ['h', ':', '٣']) ↔
      (∀ count, splitGenerationToken ['g'] ≠ .ok (some (['h', ':', '٣'], count))) ∧
        splitGenerationToken ['h', ':', '٣'] ≠ .ok (some (['g'], 0)) :=
  current_opaque_iff rfl rfl rfl (show _ = Except.ok (some (['h'], 3)) by decide) (.inl (by decide))

/-- A table settled at count 5 of an incarnation is current when the bare incarnation is read. -/
theorem current_at_incarnation : splitGenerationToken ['g'] = .ok none ∧
      (settledAt ['g', ':', '5']).judge (some ['g']) = .ok .current := by
  decide

end TableMark

end ThreeTears
