import IngressControl.Document.Basic

/-!
Schemas and their violations. A schema is a list of keywords; each keyword speaks of one kind of
value and is met by all values of other kinds.
-/

namespace IngressControl

open Numeral (Quantity)

inductive SchemaType
  | null
  | boolean
  | integer
  | number
  | string
  | array
  | object
deriving DecidableEq, Repr

namespace SchemaType

def word : SchemaType → String
  | null => "null"
  | boolean => "boolean"
  | integer => "integer"
  | number => "number"
  | string => "string"
  | array => "array"
  | object => "object"

/-- Whether a value has a type. A number with an integral value is an integer; truth values are no
numbers. -/
def holds : SchemaType → Document → Bool
  | null, .null => true
  | boolean, .bool _ => true
  | integer, .int _ => true
  | integer, .float x => x.isWhole
  | number, .int _ => true
  | number, .float _ => true
  | string, .string _ => true
  | array, .array _ => true
  | object, .object _ => true
  | _, _ => false

end SchemaType

inductive Keyword
  | type (types : List SchemaType)
  | required (keys : List String)
  | properties (entries : List (String × List Keyword))
  | items (schema : List Keyword)
  | minLength (limit : Quantity)
  | additionalProperties (schema : List Keyword)
deriving Repr, Inhabited

abbrev Schema := List Keyword

def Schema.propertyNames (schema : Schema) : List String :=
  schema.flatMap (fun keyword => match keyword with
    | .properties entries => entries.map Prod.fst
    | _ => [])

inductive Shortcoming
  | type (value : Document) (types : List SchemaType)
  | missing (key : String)
  | short (value : String) (limit : Quantity)
deriving Repr

def Shortcoming.message : Shortcoming → String
  | .type value types =>
    value.literal ++ " is not of type " ++
      ", ".intercalate (types.map (fun t => Text.quoted t.word))
  | .missing key => Text.quoted key ++ " is a required property"
  | .short value limit =>
    Text.quoted value ++
      if limit.same (.ofInt 1) then " should be non-empty" else " is too short"

/-- A shortcoming and the way to the value that has it: keys and positions from the root. -/
structure Violation where
  path : List String
  shortcoming : Shortcoming
deriving Repr

namespace Violation

def below (step : String) (v : Violation) : Violation := { v with path := step :: v.path }

/-- The way to the value, by a word of its own if there is nothing to write. -/
def place (v : Violation) : String :=
  let steps := ".".intercalate v.path
  if steps.isEmpty then "(root)" else steps

def message (v : Violation) : String := v.place ++ ": " ++ v.shortcoming.message

end Violation

end IngressControl
