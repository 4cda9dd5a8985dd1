import IngressControl.Table.Cell
import IngressControl.Text.Basic

/-!
Columns of a table. A column that holds numbers only is aligned at the point, every other one to the
left.
-/

namespace IngressControl.Table

def hiddenLength (cs : List Char) : Nat := cs.length - (Text.visible cs).length

def visibleWidth (cs : List Char) : Nat :=
  ((Text.unbroken cs).map (fun piece => (Text.visible piece).length)).foldl max 0

/-- The number of characters behind the point of a number, or behind its exponent mark; one is
added, so that nothing counts less than no characters. -/
def behindPoint (cs : List Char) : Nat :=
  let shown := Text.visible cs
  let s := String.ofList shown
  let behind (mark : Char) : Option Nat :=
    if shown.contains mark then some ((shown.reverse.takeWhile (· != mark)).length + 1) else none
  if !(isNumber s || isGrouped s) || isWhole s then 0
  else ((behind '.').orElse (fun _ =>
    if shown.contains 'e' then behind 'e' else behind 'E')).getD 0

def blanks (n : Nat) : List Char := List.replicate n ' '

def alignPoints (texts : List (List Char)) : List (List Char) :=
  let most := (texts.map behindPoint).foldl max 0
  texts.map (fun cs => cs ++ blanks (most - behindPoint cs))

def pad (toRight : Bool) (width : Nat) (cs : List Char) : List Char :=
  if toRight then blanks (width - cs.length) ++ cs else cs ++ blanks (width - cs.length)

/-- The lines of a cell, each with the number of hidden characters that its width allows for. Hidden
characters are counted between breaks, and lines beyond the last break are left out. -/
def Manner.lines (manner : Manner) (cs : List Char) : List (List Char × Nat) :=
  if !manner.multiline then [(cs, hiddenLength cs)]
  else if manner.marked then (Text.lines cs).zip ((Text.unbroken cs).map hiddenLength)
  else (Text.lines cs).map (fun line => (line, 0))

structure Column where
  width : Nat
  header : List Char
  cells : List (List (List Char))
deriving Repr

def headerMargin : Nat := 2

/-- Lays out a column. Its lines are filled up to the width of its widest text; a line may turn out
wider, and then the column is as wide as that. -/
def Column.layOut (manner : Manner) (header : String) (cells : List Document) :
    Except Fault Column := do
  let content := Content.ofCells cells
  let texts := (← cells.mapM (cellText manner content)).map String.toList
  let texts := if content.isNumeric then alignPoints texts else texts.map Text.trim
  let least := (texts.map visibleWidth).foldl max (header.length + headerMargin)
  let cells := texts.map (fun cs => (manner.lines cs).map (fun (line, hidden) =>
    pad content.isNumeric (least + hidden) line))
  let width := (cells.flatten.map (fun line => (Text.visible line).length)).foldl max
    (header.length + headerMargin)
  return ⟨width, pad content.isNumeric width header.toList, cells⟩

end IngressControl.Table
