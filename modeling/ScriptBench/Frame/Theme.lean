import ScriptBench.Screen.Style

/-! The colours of the screen, named for what they show. -/
namespace ScriptBench.Theme

def text : Color := .rgb 205 214 244
def primary : Color := .rgb 137 180 250
def secondary : Color := .rgb 250 179 135
def muted : Color := .rgb 108 112 134
def success : Color := .rgb 166 227 161
def error : Color := .rgb 243 139 168

/-! ### Source -/

def opcode : Color := primary
def disabledOpcode : Color := .rgb 180 165 120
def string : Color := secondary
def number : Color := secondary
def hex : Color := .rgb 148 226 213
def delimiter : Color := .rgb 249 226 175

/-! ### Panes -/

def focusedBorder : Color := delimiter
def border : Color := muted
def currentLine : Color := .rgb 50 50 70
def popup : Color := .rgb 30 30 46

/-- Elements of a stack alternate between two colours. -/
def element : Color := success
def otherElement : Color := .rgb 245 194 231

/-! ### Styles in more than one place -/

/-- The border of a pane. -/
def paneBorder (focused : Bool) : Style :=
  if focused then (Style.inked focusedBorder).strong else .inked border

/-- A line that failed. -/
def failed : Style := (Style.inkOn .white error).strong

/-- The name of a key. -/
def key : Style := .inkOn .black muted

end ScriptBench.Theme
