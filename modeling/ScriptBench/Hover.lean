import ScriptBench.Opcode
import ScriptBench.Opcode.Summary
import ScriptBench.Text

/-! What is shown about the word under the cursor: the byte of an opcode and what
it does, or where the source lies. -/
namespace ScriptBench

/-- Lines and byte columns counted from one; the end column is not part of the range. -/
structure TextRange where
  startLine : Nat
  startColumn : Nat
  endLine : Nat
  endColumn : Nat
deriving DecidableEq, Repr

structure Hover where
  range : TextRange
  contents : List String
deriving DecidableEq, Repr

namespace Hover

def isWordChar (c : Char) : Bool :=
  Pattern.isAlphanumeric c || c == '_' || c == '.' || c == '-'

/-- The part of a word that ends `before`. -/
def wordBefore (before : Text) : Text := (before.reverse.takeWhile isWordChar).reverse

/-- The part of a word that starts `after`. -/
def wordAfter (after : Text) : Text := after.takeWhile isWordChar

/-- A line cut at a byte offset, or at its end when the offset is beyond it; `none`
when the offset is inside a character. -/
def cut? (line : Text) (column : Nat) : Option (Text × Text) :=
  (Text.charsAt? (min column line.size) line).map fun n => (line.take n, line.drop n)

/-- The byte range of the word that touches a byte offset. -/
def wordRange? (line : Text) (column : Nat) : Option (Nat × Nat) := do
  let (before, after) ← cut? line column
  let start := before.size - (wordBefore before).size
  let stop := before.size + (wordAfter after).size
  if start < stop then some (start, stop) else none

/-- The word that touches a byte offset. -/
def word? (line : Text) (column : Nat) : Option Text :=
  (cut? line column).map fun (before, after) => wordBefore before ++ wordAfter after

/-- The hover for no word in particular: the whole source. -/
def source (lines : List Text) : Hover where
  range := ⟨1, 1, max lines.length 1, (lines.getLast?.map Text.size).getD 0 + 1⟩
  contents := ["**SOURCE**", "Stack script source"]

/-- What is said about an opcode. -/
def opcodeContents (r : RuleSet) (word : String) (o : Opcode) : List String :=
  s!"**{word}** `{Bytes.hexByte o.byte}`" ::
    ((Opcode.summary? word).toList ++
      if r.disables o.byte then [s!"Disabled on {r.name}."] else [])

/-- The hover for an opcode that touches a byte offset of a line, the line having number `row`. -/
def opcode? (r : RuleSet) (row : Nat) (line : Text) (column : Nat) : Option Hover := do
  let (start, stop) ← wordRange? line column
  let word := String.ofList (← word? line column)
  let o ← r.opcode? word
  some ⟨⟨row + 1, start + 1, row + 1, stop + 1⟩, opcodeContents r word o⟩

/-- The hover at a row and a byte offset in it, both counted from zero. -/
def ofPosition (r : RuleSet) (lines : List Text) (row column : Nat) : Hover :=
  match lines[row]?.bind (opcode? r row · column) with
  | some h => h
  | none => source lines

end Hover

end ScriptBench
