import IngressControl.Schema.Basic

/-!
Schemas written as documents. Keywords of other names are passed over.
-/

namespace IngressControl

def SchemaType.ofWord? (word : String) : Option SchemaType :=
  [SchemaType.null, .boolean, .integer, .number, .string, .array, .object].find?
    (fun t => t.word == word)

def Document.texts : Document → List String
  | .string s => [s]
  | .array items => items.filterMap Document.text?
  | _ => []

namespace Schema

mutual

def ofDocument : Document → Schema
  | .object fields => ofFields fields
  | _ => []

def ofFields : List (String × Document) → Schema
  | [] => []
  | (key, value) :: rest =>
    let keywords := ofFields rest
    match key with
    | "type" => .type (value.texts.filterMap SchemaType.ofWord?) :: keywords
    | "required" => .required value.texts :: keywords
    | "properties" => .properties (entriesOf value) :: keywords
    | "items" => .items (ofDocument value) :: keywords
    | "minLength" =>
      match value.quantity? with
      | some limit => .minLength limit :: keywords
      | none => keywords
    | "additionalProperties" => .additionalProperties (ofDocument value) :: keywords
    | _ => keywords

def entriesOf : Document → List (String × List Keyword)
  | .object fields => entriesOfFields fields
  | _ => []

def entriesOfFields : List (String × Document) → List (String × List Keyword)
  | [] => []
  | (key, value) :: rest => (key, ofDocument value) :: entriesOfFields rest

end

end Schema

end IngressControl
