import ScriptBench.Bytecode
import ScriptBench.Evaluation
import ScriptBench.Frame.Theme
import ScriptBench.Layout.TemplateArea
import ScriptBench.Screen.Box
import ScriptBench.Screen.Wrap

/-! The boxes in the middle of the screen: the compiled program, and the template
as it is edited. -/
namespace ScriptBench

/-- The box of a modal over whatever is there. -/
def Modal.layers (area : Rect) (title : String) (content : List Line) : List Layer :=
  Layer.clear area ::
    Box.layers
      { area
        border := Theme.paneBorder true
        ground := .papered Theme.popup
        title := Line.title title } content

/-- A key and what it does. -/
def Modal.hint (keyName action : String) : Line :=
  Theme.key.write s!" {keyName} " ++ (Style.inked Theme.text).write s!" {action}  "

namespace CompileModal

/-- The box on a screen. -/
def box? (screen : Rect) : Option Rect := Rect.centered? 80 70 screen

def label (t : String) : Line := (Style.inked Theme.secondary).strong.write t

/-- A value, or that there is none. -/
def value (c : Color) (t : String) : Line :=
  (Style.inked c).write (if t.isEmpty then "(empty)" else t)

/-- A label, a value below it and an empty line. -/
def labelled (title : String) (body : Line) : List Line := [label title, body, []]

def failureLines (e : Evaluation) : List Line :=
  match e.message with
  | some message => [(Style.inked Theme.error).write s!"Evaluation failed: {message}", []]
  | none => []

/-- The bytes that the digits of the witness script stand for, or none. -/
def decodedWitness (e : Evaluation) : Bytes := (Bytes.ofHex? e.witness.hexDigits).getD []

def lines (r : RuleSet) (e : Evaluation) : List Line :=
  labelled "Bytecode" (value Theme.hex e.bytecode.hex) ++
    labelled "Unlocking (stack elements)" (value Theme.hex e.unlocking.hex) ++
    labelled "Witness script" (value Theme.hex e.witness.hex) ++
    labelled "Disassembly"
      (value Theme.text (" ".intercalate (Bytecode.disassemble r (decodedWitness e)))) ++
    failureLines e ++ [Modal.hint "Esc" "close"]

def layers? (r : RuleSet) (screen : Rect) (e : Evaluation) : Option (List Layer) := do
  let box ← box? screen
  some (Modal.layers box "Compile" (Wrap.lines box.inner.width (lines r e)))

end CompileModal

namespace TemplateModal

/-- The first `n` of some lines, and empty ones when there are fewer. -/
def padded (n : Nat) (ls : List Line) : List Line :=
  ls.take n ++ List.replicate (n - ls.length) []

def textLines (b : TextBuffer) : List Line :=
  (b.lines.drop b.scroll).map (Style.inked Theme.text).line

def keysLine : Line :=
  Modal.hint "^S" "apply" ++ Modal.hint "^D" "clear template" ++ Modal.hint "Esc" "cancel"

def lines (rows : Nat) (b : TextBuffer) (flaw : Option String) : List Line :=
  padded rows (textLines b) ++
    [[], (flaw.map (Style.inked Theme.error).write).getD [], keysLine]

def layers? (screen : Rect) (b : TextBuffer) (flaw : Option String) : Option (List Layer) := do
  let box ← TemplateArea.box? screen
  some (Modal.layers box "Transaction Template" (lines (TemplateArea.textRows box) b flaw))

end TemplateModal

end ScriptBench
