import ScriptBench.Decimal

/-! Snippets: text with numbered cursor stops.

A stop is a dollar sign with a number, or with braces around a number and perhaps
a colon and a placeholder; a backslash before a dollar sign makes it plain. The
cursor goes to the stop with the lowest number above zero, else to stop zero,
else to the end. -/
namespace ScriptBench

inductive SnippetPiece where
  | char (c : Char)
  | stop (number : Option Nat) (placeholder : Text)
deriving DecidableEq, Repr

/-- A snippet without its stops, cut around the placeholder at the cursor. -/
structure Expansion where
  before : Text
  placeholder : Text
  after : Text
deriving DecidableEq, Repr

namespace Expansion

def text (e : Expansion) : Text := e.before ++ e.placeholder ++ e.after

/-- The byte offset of the cursor. -/
def cursor (e : Expansion) : Nat := e.before.size

/-- The length of the placeholder in bytes. -/
def selection (e : Expansion) : Nat := e.placeholder.size

end Expansion

namespace SnippetPiece

/-- The number of a stop; digits that stand for no number of 32 bits make none. -/
def number? (digits : Text) : Option Nat := (Decimal.natural? digits).filter (· < 0x100000000)

def notBrace (c : Char) : Bool := c != '\x7d'

/-- A stop in braces, after the opening one, and what follows it. The closing brace
may be missing. -/
def braced (t : Text) : SnippetPiece × Text :=
  let n := number? (t.takeWhile Pattern.isDigit)
  match t.dropWhile Pattern.isDigit with
  | ':' :: rest => (stop n (rest.takeWhile notBrace), (rest.dropWhile notBrace).drop 1)
  | '\x7d' :: rest => (stop n [], rest)
  | rest => (stop n [], rest)

theorem length_dropWhile_le {α : Type} (p : α → Bool) (l : List α) :
    (l.dropWhile p).length ≤ l.length :=
  (List.dropWhile_sublist p).length_le

theorem braced_length (t : Text) : (braced t).2.length ≤ t.length := by
  have h := length_dropWhile_le Pattern.isDigit t
  unfold braced
  split
  · rename_i rest hrest
    rw [hrest] at h
    have := length_dropWhile_le notBrace rest
    simp only [List.length_cons, List.length_drop] at h ⊢
    omega
  · rename_i rest hrest
    rw [hrest] at h
    simp only [List.length_cons] at h ⊢
    omega
  · exact h

/-- The pieces of a snippet. -/
def parse : Text → List SnippetPiece
  | [] => []
  | '\\' :: '$' :: rest => char '$' :: parse rest
  | '$' :: '\x7b' :: rest => (braced rest).1 :: parse (braced rest).2
  | '$' :: d :: rest =>
    if Pattern.isDigit d then
      stop (number? (d :: rest.takeWhile Pattern.isDigit)) [] ::
        parse (rest.dropWhile Pattern.isDigit)
    else char '$' :: parse (d :: rest)
  | c :: rest => char c :: parse rest
termination_by t => t.length
decreasing_by
  · simp only [List.length_cons]; omega
  · have := braced_length rest
    simp only [List.length_cons]; omega
  · have := length_dropWhile_le Pattern.isDigit rest
    simp only [List.length_cons]; omega
  · simp only [List.length_cons]; omega
  · simp only [List.length_cons]; omega

/-- The text of a piece. -/
def shown : SnippetPiece → Text
  | char c => [c]
  | stop _ placeholder => placeholder

def stopNumber? : SnippetPiece → Option Nat
  | char _ => none
  | stop n _ => n

/-- The number of the stop that the cursor goes to. -/
def target? (pieces : List SnippetPiece) : Option Nat :=
  let numbers := pieces.filterMap stopNumber?
  match (numbers.filter (0 < ·)).min? with
  | some n => some n
  | none => if numbers.contains 0 then some 0 else none

/-- Cuts pieces around the first one for which `p` holds, or at their end. -/
def cutAt (p : SnippetPiece → Bool) : List SnippetPiece → Expansion
  | [] => ⟨[], [], []⟩
  | s :: rest =>
    if p s then ⟨[], s.shown, rest.flatMap shown⟩
    else
      let e := cutAt p rest
      { e with before := s.shown ++ e.before }

end SnippetPiece

/-- A snippet as it is inserted. -/
def Expansion.ofSnippet (snippet : Text) : Expansion :=
  let pieces := SnippetPiece.parse snippet
  match SnippetPiece.target? pieces with
  | some n => SnippetPiece.cutAt (·.stopNumber? == some n) pieces
  | none => SnippetPiece.cutAt (fun _ => false) pieces

end ScriptBench
