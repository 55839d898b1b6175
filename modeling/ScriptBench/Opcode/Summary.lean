import ScriptBench.Decimal

/-! What opcodes do, in one line each. -/
namespace ScriptBench.Opcode

def summaries : List (String × String) := [
  ("OP_0", "Push an empty array (the number 0)."),
  ("OP_FALSE", "Push an empty array (the number 0)."),
  ("OP_1NEGATE", "Push the number -1."),
  ("OP_1", "Push the number 1."),
  ("OP_TRUE", "Push the number 1."),
  ("OP_NOP", "Do nothing."),
  ("OP_IF", "Execute the following statements if the top item is true."),
  ("OP_NOTIF", "Execute the following statements if the top item is false."),
  ("OP_ELSE", "Toggle execution of the enclosing OP_IF/OP_NOTIF branch."),
  ("OP_ENDIF", "End an OP_IF/OP_NOTIF block."),
  ("OP_VERIFY", "Fail unless the top item is true, then remove it."),
  ("OP_RETURN", "Mark the script as invalid."),
  ("OP_TOALTSTACK", "Move the top item to the alt stack."),
  ("OP_FROMALTSTACK", "Move the top alt stack item to the main stack."),
  ("OP_2DROP", "Remove the top two items."),
  ("OP_2DUP", "Duplicate the top two items."),
  ("OP_3DUP", "Duplicate the top three items."),
  ("OP_2OVER", "Copy the pair of items two spaces back to the front."),
  ("OP_2ROT", "Move the fifth and sixth items to the top."),
  ("OP_2SWAP", "Swap the top two pairs of items."),
  ("OP_IFDUP", "Duplicate the top item if it is not zero."),
  ("OP_DEPTH", "Push the number of stack items."),
  ("OP_DROP", "Remove the top item."),
  ("OP_DUP", "Duplicate the top item."),
  ("OP_NIP", "Remove the second-to-top item."),
  ("OP_OVER", "Copy the second-to-top item to the top."),
  ("OP_PICK", "Copy the item n back to the top."),
  ("OP_ROLL", "Move the item n back to the top."),
  ("OP_ROT", "Rotate the top three items to the left."),
  ("OP_SWAP", "Swap the top two items."),
  ("OP_TUCK", "Copy the top item before the second-to-top item."),
  ("OP_CAT", "Concatenate the top two items."),
  ("OP_SUBSTR", "Keep a substring given a start and a length."),
  ("OP_LEFT", "Keep the leftmost n bytes."),
  ("OP_RIGHT", "Keep the rightmost n bytes."),
  ("OP_SIZE", "Push the byte length of the top item without removing it."),
  ("OP_INVERT", "Flip every bit of the top item."),
  ("OP_AND", "Bitwise AND of the top two items."),
  ("OP_OR", "Bitwise OR of the top two items."),
  ("OP_XOR", "Bitwise XOR of the top two items."),
  ("OP_EQUAL", "Push 1 if the top two items are byte-equal, 0 otherwise."),
  ("OP_EQUALVERIFY", "OP_EQUAL followed by OP_VERIFY."),
  ("OP_1ADD", "Add 1 to the top number."),
  ("OP_1SUB", "Subtract 1 from the top number."),
  ("OP_NEGATE", "Flip the sign of the top number."),
  ("OP_ABS", "Make the top number positive."),
  ("OP_NOT", "Push 1 if the top number is 0, 0 otherwise."),
  ("OP_0NOTEQUAL", "Push 0 if the top number is 0, 1 otherwise."),
  ("OP_ADD", "Add the top two numbers."),
  ("OP_SUB", "Subtract the top number from the one below it."),
  ("OP_MUL", "Multiply the top two numbers (disabled)."),
  ("OP_DIV", "Divide the top two numbers (disabled)."),
  ("OP_MOD", "Remainder of the top two numbers (disabled)."),
  ("OP_BOOLAND", "Push 1 if both numbers are non-zero."),
  ("OP_BOOLOR", "Push 1 if either number is non-zero."),
  ("OP_NUMEQUAL", "Push 1 if the numbers are equal."),
  ("OP_NUMEQUALVERIFY", "OP_NUMEQUAL followed by OP_VERIFY."),
  ("OP_NUMNOTEQUAL", "Push 1 if the numbers are not equal."),
  ("OP_LESSTHAN", "Push 1 if a is less than b."),
  ("OP_GREATERTHAN", "Push 1 if a is greater than b."),
  ("OP_LESSTHANOREQUAL", "Push 1 if a is less than or equal to b."),
  ("OP_GREATERTHANOREQUAL", "Push 1 if a is greater than or equal to b."),
  ("OP_MIN", "Keep the smaller of the top two numbers."),
  ("OP_MAX", "Keep the larger of the top two numbers."),
  ("OP_WITHIN", "Push 1 if x is within [min, max)."),
  ("OP_RIPEMD160", "Hash the top item with RIPEMD-160."),
  ("OP_SHA1", "Hash the top item with SHA-1 (not supported)."),
  ("OP_SHA256", "Hash the top item with SHA-256."),
  ("OP_HASH160", "Hash the top item with SHA-256 then RIPEMD-160."),
  ("OP_HASH256", "Hash the top item with SHA-256 twice."),
  ("OP_CHECKSIG", "Verify a signature (not supported)."),
  ("OP_CHECKSIGVERIFY", "OP_CHECKSIG followed by OP_VERIFY (not supported)."),
  ("OP_CHECKMULTISIG", "Verify m-of-n signatures (not supported)."),
  ("OP_CHECKMULTISIGVERIFY", "OP_CHECKMULTISIG followed by OP_VERIFY (not supported)."),
  ("OP_CHECKSIGADD", "Verify a signature and add to a counter (not supported)."),
  ("OP_CHECKLOCKTIMEVERIFY", "Fail unless the transaction locktime reaches the top number."),
  ("OP_CHECKSEQUENCEVERIFY", "Fail unless the input sequence satisfies the relative lock."),
  ("OP_PUSHCURRENTINPUTINDEX", "Push the index of the input being spent."),
  ("OP_INSPECTINPUTVALUE", "Push the explicit value of input n as 8-byte LE64."),
  ("OP_INSPECTINPUTSEQUENCE", "Push the sequence of input n."),
  ("OP_INSPECTOUTPUTVALUE", "Push the explicit value of output n as 8-byte LE64."),
  ("OP_INSPECTVERSION", "Push the transaction version."),
  ("OP_INSPECTLOCKTIME", "Push the transaction locktime."),
  ("OP_INSPECTNUMINPUTS", "Push the number of inputs."),
  ("OP_INSPECTNUMOUTPUTS", "Push the number of outputs."),
  ("OP_ADD64", "Add two LE64 numbers, pushing the result and a success flag."),
  ("OP_SUB64", "Subtract two LE64 numbers, pushing the result and a success flag."),
  ("OP_MUL64", "Multiply two LE64 numbers, pushing the result and a success flag."),
  ("OP_DIV64", "Divide two LE64 numbers, pushing remainder, quotient and a success flag."),
  ("OP_NEG64", "Negate an LE64 number, pushing the result and a success flag."),
  ("OP_LESSTHAN64", "Push 1 if LE64 a is less than b."),
  ("OP_LESSTHANOREQUAL64", "Push 1 if LE64 a is less than or equal to b."),
  ("OP_GREATERTHAN64", "Push 1 if LE64 a is greater than b."),
  ("OP_GREATERTHANOREQUAL64", "Push 1 if LE64 a is greater than or equal to b."),
  ("OP_SCRIPTNUMTOLE64", "Convert a script number to LE64."),
  ("OP_LE64TOSCRIPTNUM", "Convert an LE64 number to a script number."),
  ("OP_LE32TOLE64", "Widen an unsigned LE32 number to LE64.")]

/-- The number that a word such as `OP_7` pushes, from 2 to 16. A plus sign and
leading zeros do not matter. -/
def pushedNumber? (word : String) : Option Nat :=
  ((Text.stripStart? "OP_".toList word.toList).bind Decimal.unsigned?).filter
    fun n => 2 ≤ n && n ≤ 16

/-- The summary of an opcode's word. -/
def summary? (word : String) : Option String :=
  match pushedNumber? word with
  | some n => some s!"Push the number {n}."
  | none => (summaries.find? (·.1 == word)).map (·.2)

end ScriptBench.Opcode
