import ScriptBench.Bytes
import ScriptBench.RuleSet

/-! What each opcode does, apart from its word and its byte.

Families of opcodes with one shape share a constructor: the rearrangements of
the stack, the arithmetic on one or two numbers, the digests, and so on. -/
namespace ScriptBench

/-- The rearrangements of the top of the stack. -/
inductive Move where
  | drop | drop2 | dup | dup2 | dup3 | nip | over1 | over2 | rot | rot2 | swap | swap2 | tuck
deriving DecidableEq, Repr

/-- The stack after a rearrangement, top first; `none` when it is too short. -/
def Move.rearranged? {α : Type} : Move → List α → Option (List α)
  | drop, _ :: s => some s
  | drop2, _ :: _ :: s => some s
  | dup, a :: s => some (a :: a :: s)
  | dup2, b :: a :: s => some (b :: a :: b :: a :: s)
  | dup3, c :: b :: a :: s => some (c :: b :: a :: c :: b :: a :: s)
  | nip, b :: _ :: s => some (b :: s)
  | over1, b :: a :: s => some (a :: b :: a :: s)
  | over2, d :: c :: b :: a :: s => some (b :: a :: d :: c :: b :: a :: s)
  | rot, c :: b :: a :: s => some (a :: c :: b :: s)
  | rot2, f :: e :: d :: c :: b :: a :: s => some (b :: a :: f :: e :: d :: c :: s)
  | swap, b :: a :: s => some (a :: b :: s)
  | swap2, d :: c :: b :: a :: s => some (b :: a :: d :: c :: s)
  | tuck, b :: a :: s => some (b :: a :: b :: s)
  | _, _ => none

inductive Bitwise where
  | and | or | xor
deriving DecidableEq, Repr

def Bitwise.apply : Bitwise → UInt8 → UInt8 → UInt8
  | and, x, y => x &&& y
  | or, x, y => x ||| y
  | xor, x, y => x ^^^ y

/-- The number that stands for a truth value. -/
def truth (b : Bool) : Int := if b then 1 else 0

/-- Arithmetic on one number. -/
inductive Unary where
  | increment | decrement | negate | abs | not | nonzero
deriving DecidableEq, Repr

def Unary.apply : Unary → Int → Int
  | increment, a => a + 1
  | decrement, a => a - 1
  | negate, a => -a
  | abs, a => a.natAbs
  | not, a => truth (a = 0)
  | nonzero, a => truth (a ≠ 0)

/-- Arithmetic on two numbers, the second on top. -/
inductive Binary where
  | add | sub | both | either | equal | differ | less | greater | atMost | atLeast | min | max
deriving DecidableEq, Repr

def Binary.apply : Binary → Int → Int → Int
  | add, a, b => a + b
  | sub, a, b => a - b
  | both, a, b => truth (a ≠ 0 ∧ b ≠ 0)
  | either, a, b => truth (a ≠ 0 ∨ b ≠ 0)
  | equal, a, b => truth (a = b)
  | differ, a, b => truth (a ≠ b)
  | less, a, b => truth (a < b)
  | greater, a, b => truth (a > b)
  | atMost, a, b => truth (a ≤ b)
  | atLeast, a, b => truth (a ≥ b)
  | min, a, b => Min.min a b
  | max, a, b => Max.max a b

inductive Hash where
  | ripemd160 | sha256 | hash160 | hash256
deriving DecidableEq, Repr

/-- What a script can read of the spending transaction. -/
inductive Inspection where
  | currentInput | inputValue | outputValue | inputSequence
  | version | lockTime | inputCount | outputCount
deriving DecidableEq, Repr

/-- Arithmetic on two words, flagged when the result does not fit. -/
inductive WordArith where
  | add | sub | mul
deriving DecidableEq, Repr

def WordArith.apply : WordArith → Int → Int → Int
  | add, a, b => a + b
  | sub, a, b => a - b
  | mul, a, b => a * b

inductive WordOrder where
  | less | atMost | greater | atLeast
deriving DecidableEq, Repr

def WordOrder.holds : WordOrder → Int → Int → Bool
  | less, a, b => a < b
  | atMost, a, b => a ≤ b
  | greater, a, b => a > b
  | atLeast, a, b => a ≥ b

/-- What an opcode does when it is executed. -/
inductive Operation where
  | constant (n : Int)
  | pushData
  | skip
  | branch (negated : Bool)
  | otherwise
  | endBranch
  | verify
  | abandon
  | toAlt
  | fromAlt
  | move (m : Move)
  | dupIfTrue
  | depth
  | pick (remove : Bool)
  | cat
  | slice
  | keep (fromEnd : Bool)
  | size
  | invert
  | bitwise (op : Bitwise)
  | equal
  | equalVerify
  | unary (op : Unary)
  | binary (op : Binary)
  | numEqualVerify
  | within
  | hash (h : Hash)
  | checkLockTime
  | checkSequence
  | inspect (i : Inspection)
  | wordArith (op : WordArith)
  | wordDivide
  | wordNegate
  | wordOrder (op : WordOrder)
  | toWord
  | fromWord
  | widen
  | reserved
  | retired
  | unsupported
deriving DecidableEq, Repr

namespace Operation

/-- Whether the operation opens, turns or closes a conditional block. -/
def isConditional : Operation → Bool
  | branch _ | otherwise | endBranch => true
  | _ => false

/-- Whether a rule set allows the operation to be executed. -/
def allowed (r : RuleSet) : Operation → Bool
  | retired => false
  | cat | slice | keep _ | invert | bitwise _ => r.splices
  | _ => true

end Operation

end ScriptBench
