import ScriptBench.RuleSet

/-! What the two panes hold to begin with: a program for each rule set that ends in true. -/
namespace ScriptBench

structure Preset where
  stackElements : String
  witnessScript : String
deriving DecidableEq, Repr

namespace Preset

def bitcoin : Preset where
  stackElements := "// Stack elements are push-only\n<2>\n<3>\n<'hello'>"
  witnessScript :=
    "// Witness script\nOP_SHA256\n" ++
    "<0x2cf24dba5fb0a30e26e83b2ac5b9e29e1b161e5c1fa7425e73043362938b9824>\n" ++
    "OP_EQUALVERIFY\nOP_ADD\n<5>\nOP_EQUAL"

def liquid : Preset where
  stackElements := "// Stack elements are push-only\n<'wiz'>\n<'ard'>"
  witnessScript := "// OP_CAT is enabled on Liquid\nOP_CAT\n<'wizard'>\nOP_EQUAL"

def liquidTapscript : Preset where
  stackElements :=
    "// 64-bit little-endian amounts\n<0x0500000000000000>\n<0x0300000000000000>"
  witnessScript := "OP_ADD64\nOP_VERIFY\n<0x0800000000000000>\nOP_EQUAL"

end Preset

def RuleSet.preset (r : RuleSet) : Preset :=
  match r.network, r.version with
  | .bitcoin, _ => Preset.bitcoin
  | .liquid, .segwit => Preset.liquid
  | .liquid, .tapscript => Preset.liquidTapscript

end ScriptBench
