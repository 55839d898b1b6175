import ScriptBench.Proofs.Evaluation.Panes
import ScriptBench.Proofs.Literal.Digits
import ScriptBench.Proofs.Machine.Alike
import ScriptBench.Proofs.Machine.History
import ScriptBench.Proofs.Text.Strip

/-! What every displayed element satisfies.

Operations make numbers and byte strings, and texts they only move. So a property of all
numbers and byte strings, and of the texts that the lines of a program push, is one of every
element that a snapshot shows. That an element is displayed on one line is such a property. -/
namespace ScriptBench

/-! ### Elements that are moved and made -/

namespace Machine

section
variable {P : Element → Prop} (hmade : ∀ e, e.text? = none → P e) {m : Machine}
include hmade

end

end Machine

/-! ### Displays on one line -/

end ScriptBench
