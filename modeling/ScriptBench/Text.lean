import ScriptBench.Bytes

/-! Editor text as lists of characters, measured and written in UTF-8.

A line is a list of characters, so that every cut falls between two of them;
offsets in bytes are read off with `Text.size`. White space is the Unicode
property `White_Space`. -/
namespace ScriptBench

abbrev Text := List Char

namespace Text

/-- The characters with the property `White_Space`. -/
def isBlank (c : Char) : Bool :=
  let n := c.toNat
  (9 ≤ n && n ≤ 13) || n == 0x20 || n == 0x85 || n == 0xa0 || n == 0x1680 ||
    (0x2000 ≤ n && n ≤ 0x200a) || n == 0x2028 || n == 0x2029 || n == 0x202f || n == 0x205f ||
    n == 0x3000

/-- The UTF-8 bytes of a text. -/
def utf8 (t : Text) : Bytes := t.flatMap String.utf8EncodeChar

/-- The length of a text in UTF-8 bytes. -/
def size : Text → Nat
  | [] => 0
  | c :: rest => c.utf8Size + size rest

theorem size_append (s t : Text) : size (s ++ t) = size s + size t := by
  induction s with
  | nil => simp [size]
  | cons c rest ih => simp only [List.cons_append, size, ih, Nat.add_assoc]

theorem length_utf8 (t : Text) : (utf8 t).length = size t := by
  induction t with
  | nil => rfl
  | cons c rest ih =>
    rw [utf8, List.flatMap_cons, List.length_append, String.length_utf8EncodeChar]
    exact congrArg _ ih

def trimStart (t : Text) : Text := t.dropWhile isBlank

def trimEnd (t : Text) : Text := (t.reverse.dropWhile isBlank).reverse

def trim (t : Text) : Text := trimEnd (trimStart t)

/-- What follows `lead` when the text starts with it. -/
def stripStart? : (lead t : Text) → Option Text
  | [], t => some t
  | _ :: _, [] => none
  | l :: lead, c :: t => if l = c then stripStart? lead t else none

/-- What precedes `tail` when the text ends with it. -/
def stripEnd? (tail t : Text) : Option Text :=
  (stripStart? tail.reverse t.reverse).map List.reverse

/-- What follows the first occurrence of `part`. -/
def after? (part : Text) : Text → Option Text
  | [] => stripStart? part []
  | c :: t => (stripStart? part (c :: t)).or (after? part t)

def contains (t part : Text) : Bool := (after? part t).isSome

/-- The pieces between line feeds, one more than there are line feeds. -/
def lines : Text → List Text
  | [] => [[]]
  | c :: t =>
    if c = '\n' then [] :: lines t
    else match lines t with
      | [] => [[c]]
      | first :: rest => (c :: first) :: rest

/-- Lines joined by line feeds. -/
def unlines : List Text → Text
  | [] => []
  | [l] => l
  | l :: rest => l ++ '\n' :: unlines rest

/-- The number of characters in the first `n` bytes, when they end between two characters. -/
def charsAt? : (n : Nat) → Text → Option Nat
  | 0, _ => some 0
  | _ + 1, [] => none
  | n + 1, c :: t =>
    if c.utf8Size ≤ n + 1 then (charsAt? (n + 1 - c.utf8Size) t).map (· + 1) else none

theorem lines_ne_nil (t : Text) : lines t ≠ [] := by
  cases t with
  | nil => simp [lines]
  | cons c t => rw [lines]; split <;> (try split) <;> simp

end Text

end ScriptBench
