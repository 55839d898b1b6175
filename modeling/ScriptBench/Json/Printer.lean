import ScriptBench.Bytes.Hex
import ScriptBench.Json

/-! Printing JSON over several lines: two blanks of indentation a level, one item
a line, and nothing between the brackets of an empty list. -/
namespace ScriptBench.Json

def printPiece : JsonPiece → Text
  | .char c =>
    match JsonPiece.escapeLetter? c with
    | some letter => ['\\', letter]
    | none => [c]
  | .unit n =>
    ['\\', 'u', Bytes.hexDigit (n / 4096 % 16), Bytes.hexDigit (n / 256 % 16),
      Bytes.hexDigit (n / 16 % 16), Bytes.hexDigit (n % 16)]

def printString (pieces : List JsonPiece) : Text :=
  '"' :: (pieces.flatMap printPiece ++ ['"'])

/-- The start of a line `depth` levels deep. -/
def newline (depth : Nat) : Text := '\n' :: List.replicate (2 * depth) ' '

mutual

/-- A value whose closing bracket stands `depth` levels deep. -/
def print (depth : Nat) : Json → Text
  | null => ['n', 'u', 'l', 'l']
  | bool true => ['t', 'r', 'u', 'e']
  | bool false => ['f', 'a', 'l', 's', 'e']
  | number token => token
  | string pieces => printString pieces
  | array [] => ['[', ']']
  | array (item :: items) =>
    '[' :: (newline (depth + 1) ++ print (depth + 1) item ++ printItems (depth + 1) items ++
      newline depth ++ [']'])
  | object [] => ['\x7b', '\x7d']
  | object ((key, value) :: members) =>
    '\x7b' :: (newline (depth + 1) ++ printString key ++ [':', ' '] ++ print (depth + 1) value ++
      printMembers (depth + 1) members ++ newline depth ++ ['\x7d'])

/-- The items after the first, each on a line of its own after a comma. -/
def printItems (depth : Nat) : List Json → Text
  | [] => []
  | item :: items => ',' :: (newline depth ++ print depth item ++ printItems depth items)

/-- The members after the first, each on a line of its own after a comma. -/
def printMembers (depth : Nat) : List (List JsonPiece × Json) → Text
  | [] => []
  | (key, value) :: members =>
    ',' :: (newline depth ++ printString key ++ [':', ' '] ++ print depth value ++
      printMembers depth members)

end

/-- A value on lines of its own. -/
def pretty (j : Json) : Text := print 0 j

end ScriptBench.Json
