import IngressControl.Fault
import IngressControl.Ledger
import IngressControl.Numeral.Quantity
import IngressControl.Numeral.Reading
import IngressControl.Numeral.Shortest

/-! Documents: the values of JSON, with the fields of an object in the order in which they were
written. Reading a part of a document says what went wrong when the document does not have the
shape. -/

namespace IngressControl

open Numeral (Double Quantity)

inductive Document
  | null
  | bool (value : Bool)
  | int (value : Int)
  | float (value : Double)
  | string (value : String)
  | array (items : List Document)
  | object (fields : List (String × Document))
deriving Repr, Inhabited

namespace Document

def kind : Document → Kind
  | null => .null
  | bool _ => .bool
  | int _ => .int
  | float _ => .float
  | string _ => .string
  | array _ => .array
  | object _ => .object

def isVoid : Document → Bool
  | null => true
  | bool b => !b
  | int n => n == 0
  | float x => x.isZero
  | string s => s.isEmpty
  | array items => items.isEmpty
  | object fields => fields.isEmpty

/-- The quantity of a number; truth values count as 0 and 1. -/
def quantity? : Document → Option Quantity
  | bool b => some (.ofInt (if b then 1 else 0))
  | int n => some (.ofInt n)
  | float x => some (.ofDouble x)
  | _ => none

mutual

/-- Equality of values: numbers are compared by value across their kinds, objects without regard to
the order of their fields. -/
def same : Document → Document → Bool
  | null, null => true
  | string s, string t => s == t
  | array xs, array ys => sameItems xs ys
  | object xs, object ys => xs.length == ys.length && sameFields xs ys
  | x, y => match x.quantity?, y.quantity? with
    | some a, some b => a.same b
    | _, _ => false

def sameItems : List Document → List Document → Bool
  | [], [] => true
  | x :: xs, y :: ys => same x y && sameItems xs ys
  | _, _ => false

/-- Whether every field on the left has an equal one on the right. -/
def sameFields : List (String × Document) → List (String × Document) → Bool
  | [], _ => true
  | (key, x) :: rest, ys =>
    (match Ledger.get? key ys with
      | some y => same x y
      | none => false) && sameFields rest ys

end

def field? (key : String) : Document → Except Fault (Option Document)
  | object fields => .ok (Ledger.get? key fields)
  | d => .error (.noOperation d.kind "get")

def field (d : Document) (key : String) : Except Fault Document :=
  (d.field? key).map (fun value => value.getD null)

def require (d : Document) (key : String) : Except Fault Document :=
  match d with
  | object fields => match Ledger.get? key fields with
    | some value => .ok value
    | none => .error (.keyMissing key)
  | d => .error (.noFields d.kind)

/-- The elements: the items of an array, the characters of a text, the keys of an object. -/
def elements : Document → Except Fault (List Document)
  | array items => .ok items
  | string s => .ok (s.toList.map (fun c => string c.toString))
  | object fields => .ok (fields.map (fun entry => string entry.1))
  | d => .error (.noElements d.kind)

def elementsOrNone (d : Document) : Except Fault (List Document) :=
  if d.isVoid then .ok [] else d.elements

def orEmpty (d : Document) : Document := if d.isVoid then object [] else d

/-- Passes on what can be a key; arrays and objects cannot. -/
def asKey : Document → Except Fault Document
  | array _ => .error (.notAKey .array)
  | object _ => .error (.notAKey .object)
  | d => .ok d

def text? : Document → Option String
  | string s => some s
  | _ => none

/-- A whole number: the number itself, a number without its fraction, or the number that a text
writes. -/
def toWhole : Document → Except Fault Int
  | bool b => .ok (if b then 1 else 0)
  | int n => .ok n
  | float x =>
    if x.isFinite then .ok x.truncate
    else .error (if x.isUndefined then .undefinedWhole else .infiniteWhole)
  | string s => Numeral.readWhole s
  | d => .error (.notWhole d.kind)

/-- A decimal number: the nearest double, or the number that a text writes. -/
def toDecimal : Document → Except Fault Double
  | bool b => .ok (Double.ofDecimal false (if b then 1 else 0) 0)
  | int n =>
    let x := Double.ofDecimal (decide (n < 0)) n.natAbs 0
    if x.isFinite then .ok x else .error .tooLarge
  | float x => .ok x
  | string s => Numeral.readDecimal s
  | d => .error (.notDecimal d.kind)

/-! The literal form of documents in messages, and their display form, in which a text shows as it
is. -/

mutual

def literal : Document → String
  | null => "None"
  | bool true => "True"
  | bool false => "False"
  | int n => toString n
  | float x => x.render
  | string s => Text.quoted s
  | array items => "[" ++ ", ".intercalate (literalItems items) ++ "]"
  | object fields => "\x7b" ++ ", ".intercalate (literalFields fields) ++ "\x7d"

def literalItems : List Document → List String
  | [] => []
  | d :: rest => literal d :: literalItems rest

def literalFields : List (String × Document) → List String
  | [] => []
  | (key, d) :: rest => (Text.quoted key ++ ": " ++ literal d) :: literalFields rest

end

/-- A document within a message: a text as it is, everything else as a literal. -/
def display : Document → String
  | string s => s
  | d => d.literal

end Document

end IngressControl
