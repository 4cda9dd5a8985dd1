import IngressControl.Document.Basic
import IngressControl.Text.Mark

/-!
What the columns of a table hold. A text counts as what it shows: it may write a truth value or a
number, and a number may have commas between groups of three digits.
-/

namespace IngressControl.Table

inductive Content
  | nothing
  | truth
  | whole
  | decimal
  | text
deriving DecidableEq, Repr

def isWhole (s : String) : Bool := (Numeral.readWhole s).isOk

def wordsBeyond : List String := ["inf", "-inf", "nan"]

def isNumber (s : String) : Bool :=
  match Numeral.readDecimal s with
  | .ok x => x.isFinite || wordsBeyond.contains s.toLower
  | .error _ => false

/-- The numbers with groups of three digits. A number may lack the digits before its point or those
behind it, or all of both, and a line may end behind it. -/
def groupedNumbers : Text.Pattern :=
  let digit : Text.Pattern := .one (fun c => c.isDigit)
  let start : Text.Pattern := .all [digit, .optional digit, .optional digit]
  let groups : Text.Pattern := .many (.all [.char ',', digit, digit, digit])
  let whole : Text.Pattern := .all [.optional (.oneOf "+-"), start, groups]
  let number : Text.Pattern := .any [
    .all [whole, .optional (.all [.char '.', .many digit])],
    .all [.char '.', .some digit],
    .empty]
  .all [number, .optional (.char '\n')]

def isGrouped (s : String) : Bool := groupedNumbers.accepts s.toList

namespace Content

def rank : Content → Nat
  | nothing => 0
  | truth => 1
  | whole => 2
  | decimal => 3
  | text => 4

/-- The more general of two contents. -/
def join (a b : Content) : Content := if a.rank < b.rank then b else a

def ofVisible (s : String) : Content :=
  if s.isEmpty then nothing
  else if s == "True" || s == "False" then truth
  else if isWhole s || isGrouped s && !s.toList.contains '.' then whole
  else if isNumber s || isGrouped s then decimal
  else text

def ofCell : Document → Content
  | .null => nothing
  | .bool _ => truth
  | .int _ => whole
  | .float _ => decimal
  | .string s => ofVisible (String.ofList (Text.visible s.toList))
  | _ => text

def ofCells (cells : List Document) : Content :=
  cells.foldl (fun found cell => found.join (ofCell cell)) truth

def isNumeric : Content → Bool
  | whole => true
  | decimal => true
  | _ => false

end Content

end IngressControl.Table
