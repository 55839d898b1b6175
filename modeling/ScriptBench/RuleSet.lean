/-! The rule sets: a network and a script version.

Liquid allows the splice and bitwise opcodes. Its tapscript also inspects the
spending transaction and computes on 64-bit words. -/
namespace ScriptBench

inductive Network where
  | bitcoin
  | liquid
deriving DecidableEq, Repr

inductive ScriptVersion where
  | segwit
  | tapscript
deriving DecidableEq, Repr

structure RuleSet where
  network : Network
  version : ScriptVersion
deriving DecidableEq, Repr

/-- The rule set in force unless another is asked for. -/
def RuleSet.standard : RuleSet := ⟨.bitcoin, .segwit⟩

def Network.name : Network → String
  | .bitcoin => "Bitcoin"
  | .liquid => "Liquid"

def ScriptVersion.name : ScriptVersion → String
  | .segwit => "Segwit"
  | .tapscript => "Tapscript"

def RuleSet.name (r : RuleSet) : String := r.network.name ++ " " ++ r.version.name

/-- A network by name, in any case of its ASCII letters. -/
def Network.ofName (s : String) : Except String Network :=
  let lower := s.toLower
  if lower = "bitcoin" ∨ lower = "btc" then .ok .bitcoin
  else if lower = "liquid" ∨ lower = "elements" then .ok .liquid
  else .error s!"unknown network '{lower}'"

/-- A script version by name, in any case of its ASCII letters. -/
def ScriptVersion.ofName (s : String) : Except String ScriptVersion :=
  let lower := s.toLower
  if lower = "segwit" ∨ lower = "v0" then .ok .segwit
  else if lower = "tapscript" ∨ lower = "taproot" then .ok .tapscript
  else .error s!"unknown script version '{lower}'"

namespace RuleSet

/-- Whether the splice and bitwise opcodes are allowed. -/
def splices (r : RuleSet) : Bool := r.network = .liquid

def isTapscript (r : RuleSet) : Bool := r.version = .tapscript

/-- Whether scripts may inspect the transaction and use 64-bit words. -/
def introspects (r : RuleSet) : Bool := r.splices && r.isTapscript

end RuleSet

end ScriptBench
