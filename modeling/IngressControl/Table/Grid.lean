import IngressControl.Table.Column

/-! Tables in a grid of lines: a double line below the headers, single lines everywhere else. A row
whose first or second cell is a lone separator stands for a line alone. -/

namespace IngressControl.Table

def separator : String := "\x01"

def isSeparatorCell : Document → Bool
  | .string s => String.ofList (Text.trim s.toList) == separator
  | _ => false

def isSeparator (row : List Document) : Bool := (row.take 2).any isSeparatorCell

def rule (fill : Char) (columns : List Column) : String :=
  let part (c : Column) : String := String.ofList (List.replicate (c.width + 2) fill)
  "+" ++ "+".intercalate (columns.map part) ++ "+"

def line (cells : List (List Char)) : String :=
  "|" ++ "|".intercalate (cells.map (fun cell => " " ++ String.ofList cell ++ " ")) ++ "|"

def rowLines (columns : List Column) (row : Nat) : List String :=
  let cells := columns.map (fun c => (c.width, c.cells[row]?.getD []))
  let height := (cells.map (fun cell => cell.2.length)).foldl max 0
  (List.range height).map (fun i => line (cells.map (fun cell => cell.2[i]?.getD (blanks cell.1))))

def columnsOf (headers : List String) (rows : List (List Document)) : Except Fault (List Column) :=
  let manner := Manner.of headers rows
  headers.zipIdx.mapM (fun (header, i) =>
    Column.layOut manner header (rows.map (fun row => row[i]?.getD .null)))

/-- A row of a grid: its lines, or none at all for a separator. -/
abbrev GridRow := Option (List String)

/-- The rows of a grid in their order, from which rows are separators and the lines of the others.
-/
def gridRows : List Bool → List (List String) → List GridRow
  | true :: rest, rows => none :: gridRows rest rows
  | false :: rest, lines :: rows => some lines :: gridRows rest rows
  | _, _ => []

/-- A separator at the end of a grid, where it is shown as the text that it is. -/
def lastSeparator (manner : Manner) : String :=
  if manner.multiline then line [separator.toList] else "|" ++ separator ++ "|"

/-- What stands below the headers: every row with a single line below it. In front of the last row
there are no more rows than those that are no separators. -/
def gridBody (manner : Manner) (single : String) (rows : List GridRow) :
    Except Fault (List String) :=
  let count := (rows.filter Option.isSome).length
  match rows.getLast? with
  | none => .ok [single]
  | some last =>
    if count = 0 then .error .noPosition
    else .ok ((rows.dropLast.take count).flatMap (fun row => row.getD [] ++ [single]) ++
      last.getD [lastSeparator manner] ++ [single])

def grid (headers : List String) (rows : List (List Document)) : Except Fault String := do
  let proper := rows.filter (fun row => !isSeparator row)
  let columns ← columnsOf headers proper
  let single := rule '-' columns
  let body ← gridBody (Manner.of headers proper) single
    (gridRows (rows.map isSeparator) ((List.range proper.length).map (rowLines columns)))
  return "\n".intercalate
    ([single, line (columns.map Column.header), rule '=' columns] ++ body)

end IngressControl.Table
