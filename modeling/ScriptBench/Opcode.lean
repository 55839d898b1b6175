import ScriptBench.Bytes.Hex
import ScriptBench.Opcode.Operation

/-! The opcodes: words, bytes and operations, and which rule sets know them.

An opcode has one byte and one canonical word, and at most one other word. A
rule set that disables an opcode still knows its word, so that `<OP_MUL>` can push
the byte; the words of a richer rule set are unknown to a poorer one. -/
namespace ScriptBench

/-- Which rule sets know an opcode by name. -/
inductive Scope where
  | everywhere
  | tapscript
  | liquidTapscript
deriving DecidableEq, Repr

def Scope.covers (r : RuleSet) : Scope → Bool
  | everywhere => true
  | tapscript => r.isTapscript
  | liquidTapscript => r.introspects

structure Opcode where
  word : String
  aliases : List String
  byte : UInt8
  scope : Scope
  operation : Operation

/-- Every opcode, in the order in which words are listed. -/
def opcodes : List Opcode := [
  ⟨"OP_0", ["OP_FALSE"], 0x00, .everywhere, .constant 0⟩,
  ⟨"OP_PUSHDATA1", [], 0x4c, .everywhere, .pushData⟩,
  ⟨"OP_PUSHDATA2", [], 0x4d, .everywhere, .pushData⟩,
  ⟨"OP_PUSHDATA4", [], 0x4e, .everywhere, .pushData⟩,
  ⟨"OP_1NEGATE", [], 0x4f, .everywhere, .constant (-1)⟩,
  ⟨"OP_RESERVED", [], 0x50, .everywhere, .reserved⟩,
  ⟨"OP_1", ["OP_TRUE"], 0x51, .everywhere, .constant 1⟩,
  ⟨"OP_2", [], 0x52, .everywhere, .constant 2⟩,
  ⟨"OP_3", [], 0x53, .everywhere, .constant 3⟩,
  ⟨"OP_4", [], 0x54, .everywhere, .constant 4⟩,
  ⟨"OP_5", [], 0x55, .everywhere, .constant 5⟩,
  ⟨"OP_6", [], 0x56, .everywhere, .constant 6⟩,
  ⟨"OP_7", [], 0x57, .everywhere, .constant 7⟩,
  ⟨"OP_8", [], 0x58, .everywhere, .constant 8⟩,
  ⟨"OP_9", [], 0x59, .everywhere, .constant 9⟩,
  ⟨"OP_10", [], 0x5a, .everywhere, .constant 10⟩,
  ⟨"OP_11", [], 0x5b, .everywhere, .constant 11⟩,
  ⟨"OP_12", [], 0x5c, .everywhere, .constant 12⟩,
  ⟨"OP_13", [], 0x5d, .everywhere, .constant 13⟩,
  ⟨"OP_14", [], 0x5e, .everywhere, .constant 14⟩,
  ⟨"OP_15", [], 0x5f, .everywhere, .constant 15⟩,
  ⟨"OP_16", [], 0x60, .everywhere, .constant 16⟩,
  ⟨"OP_NOP", [], 0x61, .everywhere, .skip⟩,
  ⟨"OP_VER", [], 0x62, .everywhere, .reserved⟩,
  ⟨"OP_IF", [], 0x63, .everywhere, .branch false⟩,
  ⟨"OP_NOTIF", [], 0x64, .everywhere, .branch true⟩,
  ⟨"OP_VERIF", [], 0x65, .everywhere, .retired⟩,
  ⟨"OP_VERNOTIF", [], 0x66, .everywhere, .retired⟩,
  ⟨"OP_ELSE", [], 0x67, .everywhere, .otherwise⟩,
  ⟨"OP_ENDIF", [], 0x68, .everywhere, .endBranch⟩,
  ⟨"OP_VERIFY", [], 0x69, .everywhere, .verify⟩,
  ⟨"OP_RETURN", [], 0x6a, .everywhere, .abandon⟩,
  ⟨"OP_TOALTSTACK", [], 0x6b, .everywhere, .toAlt⟩,
  ⟨"OP_FROMALTSTACK", [], 0x6c, .everywhere, .fromAlt⟩,
  ⟨"OP_2DROP", [], 0x6d, .everywhere, .move .drop2⟩,
  ⟨"OP_2DUP", [], 0x6e, .everywhere, .move .dup2⟩,
  ⟨"OP_3DUP", [], 0x6f, .everywhere, .move .dup3⟩,
  ⟨"OP_2OVER", [], 0x70, .everywhere, .move .over2⟩,
  ⟨"OP_2ROT", [], 0x71, .everywhere, .move .rot2⟩,
  ⟨"OP_2SWAP", [], 0x72, .everywhere, .move .swap2⟩,
  ⟨"OP_IFDUP", [], 0x73, .everywhere, .dupIfTrue⟩,
  ⟨"OP_DEPTH", [], 0x74, .everywhere, .depth⟩,
  ⟨"OP_DROP", [], 0x75, .everywhere, .move .drop⟩,
  ⟨"OP_DUP", [], 0x76, .everywhere, .move .dup⟩,
  ⟨"OP_NIP", [], 0x77, .everywhere, .move .nip⟩,
  ⟨"OP_OVER", [], 0x78, .everywhere, .move .over1⟩,
  ⟨"OP_PICK", [], 0x79, .everywhere, .pick false⟩,
  ⟨"OP_ROLL", [], 0x7a, .everywhere, .pick true⟩,
  ⟨"OP_ROT", [], 0x7b, .everywhere, .move .rot⟩,
  ⟨"OP_SWAP", [], 0x7c, .everywhere, .move .swap⟩,
  ⟨"OP_TUCK", [], 0x7d, .everywhere, .move .tuck⟩,
  ⟨"OP_CAT", [], 0x7e, .everywhere, .cat⟩,
  ⟨"OP_SUBSTR", [], 0x7f, .everywhere, .slice⟩,
  ⟨"OP_LEFT", [], 0x80, .everywhere, .keep false⟩,
  ⟨"OP_RIGHT", [], 0x81, .everywhere, .keep true⟩,
  ⟨"OP_SIZE", [], 0x82, .everywhere, .size⟩,
  ⟨"OP_INVERT", [], 0x83, .everywhere, .invert⟩,
  ⟨"OP_AND", [], 0x84, .everywhere, .bitwise .and⟩,
  ⟨"OP_OR", [], 0x85, .everywhere, .bitwise .or⟩,
  ⟨"OP_XOR", [], 0x86, .everywhere, .bitwise .xor⟩,
  ⟨"OP_EQUAL", [], 0x87, .everywhere, .equal⟩,
  ⟨"OP_EQUALVERIFY", [], 0x88, .everywhere, .equalVerify⟩,
  ⟨"OP_RESERVED1", [], 0x89, .everywhere, .reserved⟩,
  ⟨"OP_RESERVED2", [], 0x8a, .everywhere, .reserved⟩,
  ⟨"OP_1ADD", [], 0x8b, .everywhere, .unary .increment⟩,
  ⟨"OP_1SUB", [], 0x8c, .everywhere, .unary .decrement⟩,
  ⟨"OP_2MUL", [], 0x8d, .everywhere, .retired⟩,
  ⟨"OP_2DIV", [], 0x8e, .everywhere, .retired⟩,
  ⟨"OP_NEGATE", [], 0x8f, .everywhere, .unary .negate⟩,
  ⟨"OP_ABS", [], 0x90, .everywhere, .unary .abs⟩,
  ⟨"OP_NOT", [], 0x91, .everywhere, .unary .not⟩,
  ⟨"OP_0NOTEQUAL", [], 0x92, .everywhere, .unary .nonzero⟩,
  ⟨"OP_ADD", [], 0x93, .everywhere, .binary .add⟩,
  ⟨"OP_SUB", [], 0x94, .everywhere, .binary .sub⟩,
  ⟨"OP_MUL", [], 0x95, .everywhere, .retired⟩,
  ⟨"OP_DIV", [], 0x96, .everywhere, .retired⟩,
  ⟨"OP_MOD", [], 0x97, .everywhere, .retired⟩,
  ⟨"OP_LSHIFT", [], 0x98, .everywhere, .retired⟩,
  ⟨"OP_RSHIFT", [], 0x99, .everywhere, .retired⟩,
  ⟨"OP_BOOLAND", [], 0x9a, .everywhere, .binary .both⟩,
  ⟨"OP_BOOLOR", [], 0x9b, .everywhere, .binary .either⟩,
  ⟨"OP_NUMEQUAL", [], 0x9c, .everywhere, .binary .equal⟩,
  ⟨"OP_NUMEQUALVERIFY", [], 0x9d, .everywhere, .numEqualVerify⟩,
  ⟨"OP_NUMNOTEQUAL", [], 0x9e, .everywhere, .binary .differ⟩,
  ⟨"OP_LESSTHAN", [], 0x9f, .everywhere, .binary .less⟩,
  ⟨"OP_GREATERTHAN", [], 0xa0, .everywhere, .binary .greater⟩,
  ⟨"OP_LESSTHANOREQUAL", [], 0xa1, .everywhere, .binary .atMost⟩,
  ⟨"OP_GREATERTHANOREQUAL", [], 0xa2, .everywhere, .binary .atLeast⟩,
  ⟨"OP_MIN", [], 0xa3, .everywhere, .binary .min⟩,
  ⟨"OP_MAX", [], 0xa4, .everywhere, .binary .max⟩,
  ⟨"OP_WITHIN", [], 0xa5, .everywhere, .within⟩,
  ⟨"OP_RIPEMD160", [], 0xa6, .everywhere, .hash .ripemd160⟩,
  ⟨"OP_SHA1", [], 0xa7, .everywhere, .unsupported⟩,
  ⟨"OP_SHA256", [], 0xa8, .everywhere, .hash .sha256⟩,
  ⟨"OP_HASH160", [], 0xa9, .everywhere, .hash .hash160⟩,
  ⟨"OP_HASH256", [], 0xaa, .everywhere, .hash .hash256⟩,
  ⟨"OP_CODESEPARATOR", [], 0xab, .everywhere, .skip⟩,
  ⟨"OP_CHECKSIG", [], 0xac, .everywhere, .unsupported⟩,
  ⟨"OP_CHECKSIGVERIFY", [], 0xad, .everywhere, .unsupported⟩,
  ⟨"OP_CHECKMULTISIG", [], 0xae, .everywhere, .unsupported⟩,
  ⟨"OP_CHECKMULTISIGVERIFY", [], 0xaf, .everywhere, .unsupported⟩,
  ⟨"OP_NOP1", [], 0xb0, .everywhere, .skip⟩,
  ⟨"OP_CHECKLOCKTIMEVERIFY", ["OP_NOP2"], 0xb1, .everywhere, .checkLockTime⟩,
  ⟨"OP_CHECKSEQUENCEVERIFY", ["OP_NOP3"], 0xb2, .everywhere, .checkSequence⟩,
  ⟨"OP_NOP4", [], 0xb3, .everywhere, .skip⟩,
  ⟨"OP_NOP5", [], 0xb4, .everywhere, .skip⟩,
  ⟨"OP_NOP6", [], 0xb5, .everywhere, .skip⟩,
  ⟨"OP_NOP7", [], 0xb6, .everywhere, .skip⟩,
  ⟨"OP_NOP8", [], 0xb7, .everywhere, .skip⟩,
  ⟨"OP_NOP9", [], 0xb8, .everywhere, .skip⟩,
  ⟨"OP_NOP10", [], 0xb9, .everywhere, .skip⟩,
  ⟨"OP_CHECKSIGADD", [], 0xba, .tapscript, .unsupported⟩,
  ⟨"OP_SHA256INITIALIZE", [], 0xc4, .liquidTapscript, .unsupported⟩,
  ⟨"OP_SHA256UPDATE", [], 0xc5, .liquidTapscript, .unsupported⟩,
  ⟨"OP_SHA256FINALIZE", [], 0xc6, .liquidTapscript, .unsupported⟩,
  ⟨"OP_INSPECTINPUTOUTPOINT", [], 0xc7, .liquidTapscript, .unsupported⟩,
  ⟨"OP_INSPECTINPUTASSET", [], 0xc8, .liquidTapscript, .unsupported⟩,
  ⟨"OP_INSPECTINPUTVALUE", [], 0xc9, .liquidTapscript, .inspect .inputValue⟩,
  ⟨"OP_INSPECTINPUTSCRIPTPUBKEY", [], 0xca, .liquidTapscript, .unsupported⟩,
  ⟨"OP_INSPECTINPUTSEQUENCE", [], 0xcb, .liquidTapscript, .inspect .inputSequence⟩,
  ⟨"OP_INSPECTINPUTISSUANCE", [], 0xcc, .liquidTapscript, .unsupported⟩,
  ⟨"OP_PUSHCURRENTINPUTINDEX", [], 0xcd, .liquidTapscript, .inspect .currentInput⟩,
  ⟨"OP_INSPECTOUTPUTASSET", [], 0xce, .liquidTapscript, .unsupported⟩,
  ⟨"OP_INSPECTOUTPUTVALUE", [], 0xcf, .liquidTapscript, .inspect .outputValue⟩,
  ⟨"OP_INSPECTOUTPUTNONCE", [], 0xd0, .liquidTapscript, .unsupported⟩,
  ⟨"OP_INSPECTOUTPUTSCRIPTPUBKEY", [], 0xd1, .liquidTapscript, .unsupported⟩,
  ⟨"OP_INSPECTVERSION", [], 0xd2, .liquidTapscript, .inspect .version⟩,
  ⟨"OP_INSPECTLOCKTIME", [], 0xd3, .liquidTapscript, .inspect .lockTime⟩,
  ⟨"OP_INSPECTNUMINPUTS", [], 0xd4, .liquidTapscript, .inspect .inputCount⟩,
  ⟨"OP_INSPECTNUMOUTPUTS", [], 0xd5, .liquidTapscript, .inspect .outputCount⟩,
  ⟨"OP_TXWEIGHT", [], 0xd6, .liquidTapscript, .unsupported⟩,
  ⟨"OP_ADD64", [], 0xd7, .liquidTapscript, .wordArith .add⟩,
  ⟨"OP_SUB64", [], 0xd8, .liquidTapscript, .wordArith .sub⟩,
  ⟨"OP_MUL64", [], 0xd9, .liquidTapscript, .wordArith .mul⟩,
  ⟨"OP_DIV64", [], 0xda, .liquidTapscript, .wordDivide⟩,
  ⟨"OP_NEG64", [], 0xdb, .liquidTapscript, .wordNegate⟩,
  ⟨"OP_LESSTHAN64", [], 0xdc, .liquidTapscript, .wordOrder .less⟩,
  ⟨"OP_LESSTHANOREQUAL64", [], 0xdd, .liquidTapscript, .wordOrder .atMost⟩,
  ⟨"OP_GREATERTHAN64", [], 0xde, .liquidTapscript, .wordOrder .greater⟩,
  ⟨"OP_GREATERTHANOREQUAL64", [], 0xdf, .liquidTapscript, .wordOrder .atLeast⟩,
  ⟨"OP_SCRIPTNUMTOLE64", [], 0xe0, .liquidTapscript, .toWord⟩,
  ⟨"OP_LE64TOSCRIPTNUM", [], 0xe1, .liquidTapscript, .fromWord⟩,
  ⟨"OP_LE32TOLE64", [], 0xe2, .liquidTapscript, .widen⟩,
  ⟨"OP_ECMULSCALARVERIFY", [], 0xe3, .liquidTapscript, .unsupported⟩,
  ⟨"OP_TWEAKVERIFY", [], 0xe4, .liquidTapscript, .unsupported⟩]

namespace Opcode

/-- The words that name an opcode, the canonical one first. -/
def words (o : Opcode) : List String := o.word :: o.aliases

end Opcode

namespace RuleSet

/-- The opcodes a rule set knows. -/
def known (r : RuleSet) : List Opcode := opcodes.filter (·.scope.covers r)

def opcode? (r : RuleSet) (word : String) : Option Opcode :=
  r.known.find? (·.words.contains word)

def opcodeOfByte? (r : RuleSet) (byte : UInt8) : Option Opcode :=
  r.known.find? (·.byte == byte)

/-- The known words with their bytes, canonical words first among those of one byte. -/
def words (r : RuleSet) : List (String × UInt8) :=
  r.known.flatMap fun o => o.words.map (·, o.byte)

/-- The canonical word of a byte, or the byte in hexadecimal. -/
def wordOfByte (r : RuleSet) (byte : UInt8) : String :=
  match r.opcodeOfByte? byte with
  | some o => o.word
  | none => Bytes.hexByte byte

/-- Whether executing a byte fails whatever the stack holds. -/
def disables (r : RuleSet) (byte : UInt8) : Bool :=
  opcodes.any fun o => o.byte == byte && !o.operation.allowed r

end RuleSet

end ScriptBench
