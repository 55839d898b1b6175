import ScriptBench.Opcode
import ScriptBench.Opcode.Summary

/-! Suggestions for the word being typed: the opcodes a rule set knows, and
snippets for blocks and literals. -/
namespace ScriptBench

inductive SuggestionKind where
  | text
  | keyword
  | snippet
deriving DecidableEq, Repr

structure Suggestion where
  label : String
  kind : SuggestionKind
  /-- What is inserted; the body of a snippet has cursor stops. -/
  body : String
  doc : Option String
deriving DecidableEq, Repr

namespace Suggestion

def isSnippet (s : Suggestion) : Bool := s.kind = .snippet

/-- An opcode; one that the rule set disables is only text. -/
def ofOpcode (r : RuleSet) (word : String) (byte : UInt8) : Suggestion :=
  ⟨word, if r.disables byte then .text else .keyword, word, Opcode.summary? word⟩

def snippets : List Suggestion := [
  ⟨"OP_IF", .snippet, "OP_IF\n  $\x7b1\x7d\nOP_ELSE\n  $0\nOP_ENDIF", some "If-Else block"⟩,
  ⟨"OP_NOTIF", .snippet, "OP_NOTIF\n  $\x7b1\x7d\nOP_ENDIF", some "If-not block"⟩,
  ⟨"<0x", .snippet, "<0x$\x7b1:00\x7d>", some "Push hex bytes"⟩,
  ⟨"<0b", .snippet, "<0b$\x7b1:00000001\x7d>", some "Push binary bytes"⟩,
  ⟨"<'", .snippet, "<'$\x7b1:text\x7d'>", some "Push UTF-8 text"⟩,
  ⟨"<n>", .snippet, "<$\x7b1:0\x7d>", some "Push a number"⟩]

/-- All that can be suggested under a rule set. -/
def all (r : RuleSet) : List Suggestion :=
  (r.words.map fun (word, byte) => ofOpcode r word byte) ++ snippets

def upper (t : Text) : Text := t.map Char.toUpper

/-- Whether the label starts with `typed`, the case of ASCII letters aside. -/
def matchesTyped (typed : Text) (s : Suggestion) : Bool :=
  (Text.stripStart? (upper typed) (upper s.label.toList)).isSome

/-- Shorter labels first, then snippets, then labels in order. -/
def before (a b : Suggestion) : Bool :=
  let m := a.label.utf8ByteSize
  let n := b.label.utf8ByteSize
  m < n || (m == n &&
    ((a.isSnippet && !b.isSnippet) || (a.isSnippet == b.isSnippet && a.label ≤ b.label)))

/-- The suggestions for what has been typed, none for nothing; equal ones keep their order. -/
def suggest (items : List Suggestion) (typed : Text) : List Suggestion :=
  if typed.isEmpty then [] else (items.filter (matchesTyped typed)).mergeSort before

end Suggestion

end ScriptBench
