import IngressControl.Document.Yaml.Scalar

/-!
Where writing stands in a YAML text, and how texts are written there. A long text is broken at
single spaces once a line is full.
-/

namespace IngressControl.Yaml

/-- The text so far, the column, whether a blank is in front, and whether the line holds nothing but
indentation and indicators. -/
structure Cursor where
  text : String := ""
  column : Nat := 0
  spaced : Bool := true
  fresh : Bool := true
deriving Repr

def lineWidth : Nat := 80

namespace Cursor

def put (c : Cursor) (cs : List Char) : Cursor :=
  { c with text := c.text ++ String.ofList cs, column := c.column + cs.length }

def newLine (c : Cursor) : Cursor := ⟨c.text ++ "\n", 0, true, true⟩

/-- Goes to a column, on a new line unless this one is still fresh in front of it. -/
def indentTo (c : Cursor) (indent : Nat) : Cursor :=
  let c := if !c.fresh || decide (indent < c.column) || (c.column == indent && !c.spaced) then
    c.newLine else c
  if c.column < indent then
    { c.put (List.replicate (indent - c.column) ' ') with spaced := true }
  else c

def indicator (c : Cursor) (sign : Char) (needsSpace : Bool) (spaced : Bool := false)
    (keepsFresh : Bool := false) : Cursor :=
  { c.put (if c.spaced || !needsSpace then [sign] else [' ', sign]) with
    spaced := spaced
    fresh := c.fresh && keepsFresh }

def breaksAt (c : Cursor) (run : List Char) : Bool := run == [' '] && decide (lineWidth < c.column)

def runs (cs : List Char) : List (List Char) :=
  cs.splitBy (fun a b => (a == ' ') == (b == ' ') && isBreak a == isBreak b)

def putPlain (indent : Nat) (splits : Bool) (c : Cursor) (run : List Char) : Cursor :=
  if splits && c.breaksAt run then { c.indentTo indent with spaced := false, fresh := false }
  else c.put run

def plain (c : Cursor) (indent : Nat) (splits : Bool) (cs : List Char) : Cursor :=
  if cs.isEmpty then c
  else
    let c := { (if c.spaced then c else c.put [' ']) with spaced := false, fresh := false }
    (runs cs).foldl (putPlain indent splits) c

/-- Writes the runs of a text between single quotes. The text is broken inside only. -/
def putSingle (indent : Nat) (splits : Bool) : Bool → Cursor → List (List Char) → Cursor
  | _, c, [] => c
  | isFirst, c, run :: rest =>
    let c :=
      if splits && !isFirst && !rest.isEmpty && c.breaksAt run then c.indentTo indent
      else if run.any isBreak then
        (run.foldl (fun c _ => c.newLine) c.newLine).indentTo indent
      else c.put (run.flatMap (fun d => if d = '\'' then ['\'', '\''] else [d]))
    putSingle indent splits false c rest

def single (c : Cursor) (indent : Nat) (splits : Bool) (cs : List Char) : Cursor :=
  (putSingle indent splits true (c.indicator '\'' true) (runs cs)).indicator '\'' false

def escapes : List (Char × Char) :=
  [('\x00', '0'), ('\x07', 'a'), ('\x08', 'b'), ('\t', 't'), ('\n', 'n'), ('\x0b', 'v'),
    ('\x0c', 'f'), ('\r', 'r'), ('\x1b', 'e'), ('"', '"'), ('\\', '\\'), ('\x85', 'N'),
    ('\xa0', '_'), ('\u2028', 'L'), ('\u2029', 'P')]

def capitalDigits (width n : Nat) : List Char := (Text.hexDigits width n).map Char.toUpper

def escape? (d : Char) : Option (List Char) :=
  match escapes.lookup d with
  | some letter => some ['\\', letter]
  | none =>
    if isPlainChar d then none
    else if d.toNat ≤ 0xff then some ('\\' :: 'x' :: capitalDigits 2 d.toNat)
    else if d.toNat ≤ 0xffff then some ('\\' :: 'u' :: capitalDigits 4 d.toNat)
    else some ('\\' :: 'U' :: capitalDigits 8 d.toNat)

/-- Breaks a line between double quotes. A space that follows is marked as part of the text. -/
def breakLine (c : Cursor) (indent : Nat) (next : Option Char) : Cursor :=
  let c := { (c.put ['\\']).indentTo indent with spaced := false, fresh := false }
  if next = some ' ' then c.put ['\\'] else c

/-- Writes a text between double quotes. Characters that stand for themselves are held back until
the next escape or break; the text is broken inside only. -/
def putDouble (indent : Nat) (splits : Bool) :
    Bool → List Char → Cursor → List Char → Cursor
  | _, held, c, [] => c.put held
  | isFirst, held, c, d :: rest =>
    let inside := splits && !isFirst && !rest.isEmpty
    match escape? d with
    | some escaped =>
      let c := (c.put held).put escaped
      if inside && decide (lineWidth + 1 < c.column) then
        putDouble indent splits false [] (c.breakLine indent rest.head?) rest
      else putDouble indent splits false [] c rest
    | none =>
      if inside && (d == ' ' || held.isEmpty) && decide (lineWidth < c.column + held.length) then
        putDouble indent splits false [d] ((c.put held).breakLine indent (some d)) rest
      else putDouble indent splits false (held ++ [d]) c rest

def double (c : Cursor) (indent : Nat) (splits : Bool) (cs : List Char) : Cursor :=
  (putDouble indent splits true [] (c.indicator '"' true) cs).indicator '"' false

def scalar (c : Cursor) (indent : Nat) (splits : Bool) (s : String) : Cursor :=
  match styleOf s with
  | .plain => c.plain indent splits s.toList
  | .single => c.single indent splits s.toList
  | .double => c.double indent splits s.toList

end Cursor

end IngressControl.Yaml
