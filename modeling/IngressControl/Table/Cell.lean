import IngressControl.Numeral.Shortest
import IngressControl.Table.Content
import IngressControl.Text.Basic

/-! The texts of cells. In a column of decimal numbers every number is written anew; in a column of
whole numbers texts stay as they are, but for digits in a colour. -/

namespace IngressControl.Table

/-- What the texts of a table have to be laid out for: marks that do not show, and several lines. -/
structure Manner where
  marked : Bool
  multiline : Bool
deriving DecidableEq, Repr

def Manner.of (headers : List String) (rows : List (List Document)) : Manner :=
  let all := "\t".intercalate (headers ++ rows.flatMap (fun row => row.map Document.display))
  { marked := Text.hasMark Text.mark? all.toList, multiline := all.toList.any Text.isBreak }

def isEscaped (c : Char) : Bool := !Text.isBetween ' ' '~' c || c == '\\'

/-- Digits in a colour at the beginning of a text, which go on up to the next escaped character: the
mark of the colour, the digits and the rest. Points count as digits here. -/
def colored? : List Char → Option (List Char × List Char × List Char)
  | '\x1b' :: '[' :: cs =>
    let parameters := cs.takeWhile Char.isDigit
    let rest := cs.dropWhile Char.isDigit
    let finals := rest.takeWhile (fun c => c == 'm' || c == 'M')
    let rest := rest.drop finals.length
    let digits := rest.takeWhile (fun c => c.isDigit || c == '.')
    let rest := rest.drop digits.length
    if !parameters.isEmpty && !finals.isEmpty && !digits.isEmpty && rest.head?.any isEscaped then
      some ('\x1b' :: '[' :: (parameters ++ finals), digits, rest)
    else none
  | _ => none

def firstColored? : List Char → Option (List Char × List Char × List Char)
  | [] => none
  | c :: cs => (colored? (c :: cs)).orElse (fun _ => firstColored? cs)

/-- A text in a column of whole numbers. The first digits in a colour lose the zeros before them and
everything before their colour. -/
def wholeText (s : String) : String :=
  match firstColored? s.toList with
  | some (mark, digits, rest) =>
    if digits.all Char.isDigit then
      let value := Numeral.ofDigits (digits.map (fun c => c.toNat - 48))
      String.ofList (mark ++ Nat.toDigits 10 value ++ rest)
    else s
  | none => s

/-- A text in a column of decimal numbers, without commas. Among texts with marks the number that
shows is replaced where it stands, and commas stay. -/
def decimalText (marked : Bool) (s : String) : String :=
  if marked then
    let shown := Text.visible s.toList
    match Numeral.readDecimal (String.ofList shown) with
    | .ok x => String.ofList (Text.replaceAll shown x.renderShort.toList s.toList)
    | .error _ => s
  else
    let plain := String.ofList (s.toList.filter (· != ','))
    match Numeral.readDecimal plain with
    | .ok x => x.renderShort
    | .error _ => plain

/-- The text of a cell in a column; null leaves it empty. -/
def cellText (manner : Manner) (content : Content) (cell : Document) : Except Fault String :=
  match content, cell with
  | _, .null => .ok ""
  | _, .string "" => .ok ""
  | .whole, .string s => .ok (wholeText s)
  | .decimal, .string s => .ok (decimalText manner.marked s)
  | .decimal, number => number.toDecimal.map (fun x => x.renderShort)
  | _, other => .ok other.display

end IngressControl.Table
