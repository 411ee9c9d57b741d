/-!
Strings seen as UTF-8: lengths and offsets count bytes.
-/

namespace MiniGo.Text

def byteLength (text : String) : Nat := text.utf8ByteSize

def byteAt? (text : String) (offset : Nat) : Option UInt8 := text.toUTF8.data[offset]?

/-- The character that starts at a byte offset, none inside a character or past the end. -/
def charAt? : List Char → Nat → Option Char
  | [], _ => none
  | char :: _, 0 => some char
  | char :: rest, offset + 1 =>
    if char.utf8Size ≤ offset + 1 then charAt? rest (offset + 1 - char.utf8Size) else none

/-- The character of a code point, or the replacement character when there is none. -/
def ofCodePoint (point : Int) : String :=
  String.singleton <|
    match point with
    | .ofNat n => if n.isValidChar then Char.ofNat n else '\ufffd'
    | .negSucc _ => '\ufffd'

def isBlank (char : Char) : Bool :=
  let n := char.toNat
  (0x9 ≤ n && n ≤ 0xd) || n == 0x20 || n == 0x85 || n == 0xa0 || n == 0x1680 ||
    (0x2000 ≤ n && n ≤ 0x200a) || n == 0x2028 || n == 0x2029 || n == 0x202f || n == 0x205f ||
    n == 0x3000

theorem isBlank_of_isWhitespace {char : Char} (blank : char.isWhitespace = true) :
    isBlank char = true := by
  simp only [Char.isWhitespace, Bool.or_eq_true, decide_eq_true_eq] at blank
  rcases blank with ((rfl | rfl) | rfl) | rfl <;> decide

def trim (text : String) : List Char :=
  ((text.toList.dropWhile isBlank).reverse.dropWhile isBlank).reverse

def digitsValue? : List Char → Option Nat
  | [] => none
  | digits =>
    if digits.all Char.isDigit then
      some (digits.foldl (fun value digit => value * 10 + (digit.toNat - '0'.toNat)) 0)
    else none

/-- A natural number below `2 ^ 64` in decimal digits, with an optional plus sign. -/
def wordValue? (text : List Char) : Option Nat :=
  let digits := match text with
    | '+' :: rest => rest
    | rest => rest
  (digitsValue? digits).filter (· < UInt64.size)

end MiniGo.Text
