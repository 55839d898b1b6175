import ScriptBench.Binary64
import ScriptBench.Bytecode
import ScriptBench.Bytes
import ScriptBench.Bytes.Hex
import ScriptBench.CommandLine.Options
import ScriptBench.CommandLine.Report
import ScriptBench.Completion
import ScriptBench.Completion.Snippet
import ScriptBench.Debouncer
import ScriptBench.Decimal
import ScriptBench.Decimal.Nearest
import ScriptBench.Digest.Block
import ScriptBench.Digest.Ripemd160
import ScriptBench.Digest.Sha256
import ScriptBench.Editing.ClosingPair
import ScriptBench.Editing.Context
import ScriptBench.Editing.Enter
import ScriptBench.Element
import ScriptBench.Evaluation
import ScriptBench.Frame
import ScriptBench.Frame.EditorPane
import ScriptBench.Frame.Modal
import ScriptBench.Frame.OutputPane
import ScriptBench.Frame.Popup
import ScriptBench.Frame.StatusBar
import ScriptBench.Frame.Theme
import ScriptBench.Hover
import ScriptBench.Input
import ScriptBench.Json
import ScriptBench.Json.Printer
import ScriptBench.Json.Reader
import ScriptBench.Layout.EditorArea
import ScriptBench.Layout.PaneOffset
import ScriptBench.Layout.Quadrants
import ScriptBench.Layout.Rect
import ScriptBench.Layout.TemplateArea
import ScriptBench.Machine
import ScriptBench.Machine.Action
import ScriptBench.Machine.Execute
import ScriptBench.Machine.Fault
import ScriptBench.Machine.LockTime
import ScriptBench.Main
import ScriptBench.Number
import ScriptBench.Opcode
import ScriptBench.Opcode.Operation
import ScriptBench.Opcode.Summary
import ScriptBench.Preset
import ScriptBench.Proofs.Bytecode.Listing
import ScriptBench.Proofs.Bytecode.Parts
import ScriptBench.Proofs.Bytecode.Push
import ScriptBench.Proofs.Bytecode.Replay
import ScriptBench.Proofs.Conditional.Program
import ScriptBench.Proofs.Conditional.Run
import ScriptBench.Proofs.Evaluation.Reference
import ScriptBench.Proofs.Machine.Alike
import ScriptBench.Proofs.Machine.Display
import ScriptBench.Proofs.Machine.Related
import ScriptBench.Proofs.Machine.Run
import ScriptBench.Proofs.Opcode.Table
import ScriptBench.RuleSet
import ScriptBench.Screen
import ScriptBench.Screen.Box
import ScriptBench.Screen.Style
import ScriptBench.Screen.Wrap
import ScriptBench.Session
import ScriptBench.Session.Event
import ScriptBench.SourceLine
import ScriptBench.Template
import ScriptBench.Template.Json
import ScriptBench.Text
import ScriptBench.TextBuffer
import ScriptBench.Token
import ScriptBench.Token.Pattern
import ScriptBench.Token.Scan
import ScriptBench.Proofs.Machine.History
import ScriptBench.Proofs.Session.Core
import ScriptBench.Proofs.Literal.Digits
import ScriptBench.Proofs.Session.UpToDate
import ScriptBench.Proofs.SourceLine.Surroundings
import ScriptBench.Proofs.Literal.Spelling
import ScriptBench.Proofs.Literal.ReadBack
import ScriptBench.Proofs.Evaluation.Panes
import ScriptBench.Proofs.Evaluation.Split
import ScriptBench.Proofs.Evaluation.FirstPane
import ScriptBench.Proofs.Machine.DisplayForm
import ScriptBench.Proofs.Machine.StackFrame
import ScriptBench.Proofs.Evaluation.Richer
import ScriptBench.Proofs.Evaluation.Observed
import ScriptBench.Proofs.Literal.ScriptNumber
import ScriptBench.Proofs.Machine.Elements
import ScriptBench.Proofs.Text.Lines
import ScriptBench.Proofs.Text.Offset
import ScriptBench.Proofs.Token.Tiling
import ScriptBench.Proofs.TextBuffer.FlatText
import ScriptBench.Proofs.Token.Uncommented
import ScriptBench.Proofs.SourceLine.Again
import ScriptBench.Proofs.Session.Popups
import ScriptBench.Proofs.TextBuffer.Rows
import ScriptBench.Proofs.TextBuffer.Bounds
import ScriptBench.Proofs.Debouncer.LastWrite
import ScriptBench.Proofs.Json.ReadBack
import ScriptBench.Proofs.Template.RoundTrip
import ScriptBench.Proofs.Session.Dividers
import ScriptBench.Proofs.Session.Accepting
import ScriptBench.Proofs.Token.Uncomment
import ScriptBench.Proofs.SourceLine.Returns
import ScriptBench.Proofs.Session.Start
import ScriptBench.Proofs.Session.Edits
import ScriptBench.Proofs.Evaluation.Aligned
import ScriptBench.Proofs.Session.Aligned
import ScriptBench.Proofs.Decimal.Rounded
import ScriptBench.Proofs.Machine.WordConversion
import ScriptBench.Proofs.Editing.Context
import ScriptBench.Proofs.Machine.Arithmetic
import ScriptBench.Proofs.Machine.WordArithmetic
import ScriptBench.Proofs.Machine.LockTime
import ScriptBench.Proofs.Machine.Outcomes
import ScriptBench.Proofs.Machine.Truth
import ScriptBench.Proofs.Machine.Shuffles
import ScriptBench.Proofs.Machine.Splices
import ScriptBench.Proofs.Layout.Dragging
import ScriptBench.Proofs.Layout.Area
import ScriptBench.Proofs.Layout.Offset
import ScriptBench.Proofs.Layout.Tiling
import ScriptBench.Proofs.Layout.EditorArea
import ScriptBench.Proofs.Binary64.Accuracy
import ScriptBench.Proofs.Layout.Reduced
import ScriptBench.Proofs.Layout.Overflow
import ScriptBench.Proofs.TextBuffer.Completing
import ScriptBench.Proofs.TextBuffer.TypedLine
import ScriptBench.Proofs.Machine.Feeding
import ScriptBench.Proofs.Frame.CompletionPopup
import ScriptBench.Proofs.Session.Selecting
import ScriptBench.Proofs.Session.Outlived
import ScriptBench.Proofs.Session.Applying
import ScriptBench.Proofs.Text.Regex
import ScriptBench.Proofs.Editing.Enter
import ScriptBench.Proofs.Token.Longest
import ScriptBench.Proofs.Token.Matchers
import ScriptBench.Proofs.CommandLine.Groups
import ScriptBench.Proofs.Completion.Offsets
import ScriptBench.Proofs.Completion.Narrowing
import ScriptBench.Proofs.Evaluation.Displayed
import ScriptBench.Proofs.CommandLine.Report
import ScriptBench.Proofs.Hover.Word
