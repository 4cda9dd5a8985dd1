import IngressControl.Schema.Basic

/-! Checking a document against a schema: all violations, in the order of the keywords. -/

namespace IngressControl.Schema

mutual

def violationsOf (names : List String) : List Keyword → Document → List Violation
  | [], _ => []
  | keyword :: rest, d => keywordViolations names keyword d ++ violationsOf names rest d

def keywordViolations (names : List String) : Keyword → Document → List Violation
  | .type types, d =>
    if types.any (fun t => t.holds d) then [] else [⟨[], .type d types⟩]
  | .required keys, .object fields =>
    (keys.filter (fun key => (Ledger.get? key fields).isNone)).map (fun key => ⟨[], .missing key⟩)
  | .properties entries, .object fields => entryViolations entries fields
  | .items schema, .array items =>
    items.zipIdx.flatMap (fun (item, i) =>
      (violationsOf (propertyNames schema) schema item).map (Violation.below (toString i)))
  | .minLength limit, .string s =>
    if (Numeral.Quantity.ofInt s.length).less limit then [⟨[], .short s limit⟩] else []
  | .additionalProperties schema, .object fields =>
    fields.flatMap (fun (key, value) =>
      if names.contains key then []
      else (violationsOf (propertyNames schema) schema value).map (Violation.below key))
  | _, _ => []

def entryViolations : List (String × List Keyword) → List (String × Document) → List Violation
  | [], _ => []
  | (key, schema) :: rest, fields =>
    (match Ledger.get? key fields with
      | some value =>
        (violationsOf (propertyNames schema) schema value).map (Violation.below key)
      | none => []) ++ entryViolations rest fields

end

/-- Whether a path comes before another: by the first step that differs, or as its beginning. -/
def precedes : List String → List String → Bool
  | _, [] => false
  | [], _ :: _ => true
  | a :: rest, b :: others => if a = b then precedes rest others else decide (a < b)

/-- All violations in the order in which they are reported: by path, ties in keyword order. -/
def violations (schema : Schema) (d : Document) : List Violation :=
  (violationsOf schema.propertyNames schema d).mergeSort (fun v w => !precedes w.path v.path)

def report (schema : Schema) (d : Document) : Option String :=
  let found := schema.violations d
  if found.isEmpty then none else some ("; ".intercalate (found.map Violation.message))

/-! The schema of ingresses. -/

def ofTypes (types : List SchemaType) : Schema := [.type types]

def nonEmptyText : Schema := [.type [.string], .minLength (.ofInt 1)]

def backend : Schema :=
  [.type [.object], .required ["serviceName", "servicePort"],
    .properties [("serviceName", nonEmptyText), ("servicePort", ofTypes [.integer, .string])]]

def metadata : Schema :=
  [.type [.object], .required ["name"],
    .properties [("name", nonEmptyText), ("namespace", nonEmptyText),
      ("annotations", [.type [.object], .additionalProperties (ofTypes [.string])])]]

def path : Schema :=
  [.type [.object], .required ["backend"],
    .properties [("path", ofTypes [.string]), ("backend", backend)]]

def rule : Schema :=
  [.type [.object],
    .properties [("host", ofTypes [.string]),
      ("http", [.type [.object], .required ["paths"],
        .properties [("paths", [.type [.array], .items path])]])]]

def ingress : Schema :=
  [.type [.object], .required ["metadata", "spec"],
    .properties [("metadata", metadata),
      ("spec", [.type [.object],
        .properties [("backend", backend), ("rules", [.type [.array], .items rule])]])]]

def ingressReport (d : Document) : Option String := report ingress d

end IngressControl.Schema
