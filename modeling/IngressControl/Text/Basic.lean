/-! Texts: their order, which is that of their code points, their blanks and digits, and the pieces
that separators and line ends cut them into. -/

namespace IngressControl

def sortTexts (texts : List String) : List String :=
  texts.mergeSort (fun a b => decide (a ≤ b))

theorem sortTexts_perm (texts : List String) : (sortTexts texts).Perm texts :=
  List.mergeSort_perm texts _

end IngressControl

/-! Blank characters and trimming. A character is blank when Unicode calls it white space, or when
it is one of the four information separators U+001C to U+001F. -/

namespace IngressControl.Text

/-- Blank characters: the separators and line breaks of Unicode, and U+001C to U+001F. -/
def isBlank (c : Char) : Bool :=
  let n := c.toNat
  (0x09 ≤ n && n ≤ 0x0d) || (0x1c ≤ n && n ≤ 0x20) || n == 0x85 || n == 0xa0 || n == 0x1680 ||
    (0x2000 ≤ n && n ≤ 0x200a) || n == 0x2028 || n == 0x2029 || n == 0x202f || n == 0x205f ||
    n == 0x3000

def dropEndWhile (p : Char → Bool) (cs : List Char) : List Char :=
  (cs.reverse.dropWhile p).reverse

def trimBy (p : Char → Bool) (cs : List Char) : List Char :=
  dropEndWhile p (cs.dropWhile p)

def trim (cs : List Char) : List Char := trimBy isBlank cs

/-! Decimal digits of Unicode 14. Each script has its ten digits in a row, so a table of the zeros
decides the value of every digit. Hexadecimal digits are ASCII only. -/

def decimalZeros : List Nat :=
  [
    0x30, 0x660, 0x6f0, 0x7c0, 0x966, 0x9e6, 0xa66, 0xae6, 0xb66, 0xbe6, 0xc66, 0xce6, 0xd66, 0xde6,
    0xe50, 0xed0, 0xf20, 0x1040, 0x1090, 0x17e0, 0x1810, 0x1946, 0x19d0, 0x1a80, 0x1a90, 0x1b50,
    0x1bb0, 0x1c40, 0x1c50, 0xa620, 0xa8d0, 0xa900, 0xa9d0, 0xa9f0, 0xaa50, 0xabf0, 0xff10, 0x104a0,
    0x10d30, 0x11066, 0x110f0, 0x11136, 0x111d0, 0x112f0, 0x11450, 0x114d0, 0x11650, 0x116c0,
    0x11730, 0x118e0, 0x11950, 0x11c50, 0x11d50, 0x11da0, 0x16a60, 0x16ac0, 0x16b50, 0x1d7ce,
    0x1d7d8, 0x1d7e2, 0x1d7ec, 0x1d7f6, 0x1e140, 0x1e2f0, 0x1e950, 0x1fbf0]

def digitValue? (c : Char) : Option Nat :=
  (decimalZeros.find? (fun start => decide (start ≤ c.toNat) && decide (c.toNat < start + 10))).map
    (c.toNat - ·)

def hexValue? (c : Char) : Option Nat :=
  let n := c.toNat
  if 48 ≤ n ∧ n ≤ 57 then some (n - 48)
  else if 97 ≤ n ∧ n ≤ 102 then some (n - 87)
  else if 65 ≤ n ∧ n ≤ 70 then some (n - 55)
  else none

/-! Comma separated entries. Reading trims every entry and drops the empty ones; writing puts one
comma between neighbours. -/

/-- The pieces of a text between the occurrences of a separator; never empty. -/
def pieces (sep : Char) : List Char → List (List Char)
  | [] => [[]]
  | c :: cs =>
    if c = sep then [] :: pieces sep cs
    else match pieces sep cs with
      | [] => [[c]]
      | piece :: rest => (c :: piece) :: rest

namespace Entries

def ofChars (cs : List Char) : List (List Char) :=
  ((pieces ',' cs).map trim).filter (fun entry => !entry.isEmpty)

def parse (s : String) : List String :=
  (ofChars s.toList).map String.ofList

/-- Entries with one comma between neighbours. -/
def join (entries : List String) : String :=
  ",".intercalate entries

end Entries

/-! Lines. A text is cut into lines at every line end, of which Unicode has several; no line begins
behind the last one. Breaks are counted in another way: each of two characters is one. -/

def isLineEnd (c : Char) : Bool :=
  let n := c.toNat
  (0x0a ≤ n && n ≤ 0x0d) || (0x1c ≤ n && n ≤ 0x1e) || n == 0x85 || n == 0x2028 || n == 0x2029

/-- The lines of a text; a carriage return and a line feed are one line end. -/
def lines : List Char → List (List Char)
  | [] => []
  | '\r' :: '\n' :: cs => [] :: lines cs
  | c :: cs =>
    if isLineEnd c then [] :: lines cs
    else match lines cs with
      | [] => [[c]]
      | line :: rest => (c :: line) :: rest

def isBreak (c : Char) : Bool := c == '\r' || c == '\n'

/-- The pieces of a text between its breaks; never none. -/
def unbroken (cs : List Char) : List (List Char) :=
  pieces '\n' (cs.map (fun c => if isBreak c then '\n' else c))

end IngressControl.Text
