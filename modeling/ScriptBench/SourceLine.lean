import ScriptBench.Token.Scan

/-! The lines of a pane as they are run: without comments and without the blanks
around them. There are as many as the text has lines, so that line numbers stay
what the reader sees. -/
namespace ScriptBench.SourceLine

/-- A line without the carriage return before its line feed. -/
def stripReturn (t : Text) : Text := (Text.stripEnd? ['\r'] t).getD t

/-- The line that its tokens other than comments spell, trimmed. -/
def ofTokens (tokens : List Token) : Text :=
  Text.trim (Token.line (tokens.filter (·.kind != .comment)))

/-- The runnable lines of a text. -/
def ofText (t : Text) : List Text :=
  (Token.document (t.lines.map stripReturn)).map ofTokens

end ScriptBench.SourceLine
