import IngressControl.Document.Basic
import IngressControl.Document.Yaml.Cursor
import IngressControl.Numeral.Shortest

/-!
Writing documents as YAML in block layout, the fields of objects in the order of their keys.
-/

namespace IngressControl.Yaml

mutual

def sortKeys : Document → Document
  | .array items => .array (sortItems items)
  | .object fields =>
    .object ((sortFields fields).mergeSort (fun a b => !decide (b.1 < a.1)))
  | d => d

def sortItems : List Document → List Document
  | [] => []
  | d :: rest => sortKeys d :: sortItems rest

def sortFields : List (String × Document) → List (String × Document)
  | [] => []
  | (key, d) :: rest => (key, sortKeys d) :: sortFields rest

end

/-- A decimal number; an exponent follows a fraction. -/
def decimal (x : Numeral.Double) : List Char :=
  if !x.isFinite then
    (if x.isUndefined then ".nan" else if x.negative then "-.inf" else ".inf").toList
  else
    let cs := x.render.toList
    if cs.contains '.' then cs
    else cs.takeWhile (· != 'e') ++ (if cs.contains 'e' then ['.', '0'] else []) ++
      cs.dropWhile (· != 'e')

/-- The place of a document: the column of its parent, none at the top, and whether it is the value
of a key. -/
structure Place where
  indent : Option Nat
  isValue : Bool

def Place.ofText (place : Place) : Nat :=
  match place.indent with
  | none => 2
  | some n => n + 2

def Place.ofFields (place : Place) : Nat :=
  match place.indent with
  | none => 0
  | some n => n + 2

/-- The column of the items of an array; those below a key begin where the key does. -/
def Place.ofItems (place : Place) (c : Cursor) : Nat :=
  match place.indent with
  | none => 0
  | some n => if place.isValue && !c.fresh then n else n + 2

/-- A key and the sign behind it. A key that does not fit on a line with its value has a line of
its own. -/
def writeKey (c : Cursor) (column : Nat) (key : String) : Cursor :=
  let c := c.indentTo column
  if isSimpleKey key then (c.scalar (column + 2) false key).indicator ':' false
  else
    let c := (c.indicator '?' true false true).scalar (column + 2) true key
    (c.indentTo column).indicator ':' true false true

mutual

def writeAt (place : Place) (c : Cursor) : Document → Cursor
  | .null => c.plain place.ofText true "null".toList
  | .bool true => c.plain place.ofText true "true".toList
  | .bool false => c.plain place.ofText true "false".toList
  | .int n => c.plain place.ofText true (toString n).toList
  | .float x => c.plain place.ofText true (decimal x)
  | .string s => c.scalar place.ofText true s
  | .array [] => (c.indicator '[' true true).indicator ']' false
  | .array items => writeItems (place.ofItems c) c items
  | .object [] => (c.indicator '\x7b' true true).indicator '\x7d' false
  | .object fields => writeFields place.ofFields c fields

def writeItems (column : Nat) (c : Cursor) : List Document → Cursor
  | [] => c
  | d :: rest =>
    let c := (c.indentTo column).indicator '-' true false true
    writeItems column (writeAt ⟨some column, false⟩ c d) rest

def writeFields (column : Nat) (c : Cursor) : List (String × Document) → Cursor
  | [] => c
  | (key, d) :: rest =>
    writeFields column (writeAt ⟨some column, true⟩ (writeKey c column key) d) rest

end

/-- Whether a document at the top is written plain, so that the end of the text has to be marked. -/
def isOpen : Document → Bool
  | .string s => styleOf s == .plain
  | .array _ => false
  | .object _ => false
  | _ => true

def write (d : Document) : String :=
  let c := (writeAt ⟨none, false⟩ {} (sortKeys d)).indentTo 0
  if isOpen d then c.text ++ "...\n" else c.text

end IngressControl.Yaml
