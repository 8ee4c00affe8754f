import Mathlib.Data.List.DropRight

/-!
# Dumps without extension comments

`_skip_extension_comments` drops the lines from one that starts with `COMMENT ON EXTENSION` to one
that ends with `;`, and keeps the rows of a `COPY` block. A line inside of a string literal is taken
for the start or the end of a statement too, and a comment that is spelled otherwise is kept.
-/

namespace ThreeTears

open List

abbrev Bytes := List Char

def isSpace (c : Char) : Bool := c ∈ [' ', '\t', '\n', '\r', '\x0b', '\x0c']

def startsWith (start line : Bytes) : Bool := start.isPrefixOf line

/-- `line.rstrip().endswith(tail)`. -/
def endsWith (tail line : Bytes) : Bool := tail.isSuffixOf (line.rdropWhile isSpace)

def extensionComment : Bytes := "COMMENT ON EXTENSION ".toList

def copyEnd : Bytes := ['\\', '.']

def startsCopy (line : Bytes) : Bool :=
  startsWith "COPY ".toList line && endsWith "FROM stdin;".toList line

/-- The variables of `_skip_extension_comments`, and what was yielded so far. -/
structure DumpFilter where
  inCopy : Bool
  skipping : Bool
  pending : Bytes
  out : Bytes

namespace DumpFilter

def start : DumpFilter := ⟨false, false, [], []⟩

end DumpFilter

/-- A statement or a `COPY` block of a dump, by its lines. Lines between two statements, blank or
of `--`, stand as one of their own. -/
inductive DumpItem
  | statement (first : Bytes) (more : List Bytes)
  | copy (header : Bytes) (rows : List Bytes)

namespace DumpItem

def lines : DumpItem → List Bytes
  | statement first more => first :: more
  | copy header rows => header :: (rows ++ [copyEnd])

def text (item : DumpItem) : Bytes := item.lines.flatMap (· ++ ['\n'])

/-- The words of a text, in capitals. -/
def words (text : Bytes) : List Bytes :=
  ((text.splitOnP isSpace).filter (· ≠ [])).map (map Char.toUpper)

/-- What kind of statement it is: its first words, whatever white space stands around them. -/
def isExtensionComment : DumpItem → Bool
  | item@(statement ..) =>
    (words item.text).take 3 = ["COMMENT".toList, "ON".toList, "EXTENSION".toList]
  | copy .. => false

/-- A line that the filter, outside of a block and of a comment, passes on and no more. -/
def PlainLine (line : Bytes) : Prop := ¬startsWith extensionComment line ∧ ¬startsCopy line
deriving Decidable

/-- The filter finds an extension comment, and its end where it ends; it finds a `COPY` block too,
or nothing in it to stop at; and no line of another statement looks like the start of either. -/
def Plain : DumpItem → Prop
  | copy header rows => startsCopy header ∧ ¬startsWith extensionComment header ∧
      (∀ row ∈ rows, row ≠ copyEnd) ∨ ∀ line ∈ (copy header rows).lines, PlainLine line
  | statement first more =>
    if isExtensionComment (statement first more) then
      startsWith extensionComment first ∧
        (∀ line ∈ (first :: more).dropLast, ¬endsWith [';'] line) ∧
        ∀ line ∈ (first :: more).getLast?, endsWith [';'] line
    else ∀ line ∈ first :: more, PlainLine line

instance : DecidablePred Plain := fun item => by
  cases item <;> (unfold Plain; infer_instance)

end DumpItem

namespace DumpFilter

variable {s : DumpFilter} {first line out : Bytes} {ls : List Bytes} {item : DumpItem}

end DumpFilter

end ThreeTears
