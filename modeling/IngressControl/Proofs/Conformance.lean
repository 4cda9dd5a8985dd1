import IngressControl.Proofs.Verdicts

/-! What it means that a document conforms to a schema, keyword by keyword and part by part. A
document has no violations of a schema exactly if it conforms to it. -/

namespace IngressControl

open Numeral (Double Quantity)

/-- The values of a type. A number is an integer if its value is that of a whole number, and truth
values are no numbers. -/
inductive SchemaType.Describes : SchemaType → Document → Prop
  | null : Describes .null .null
  | boolean {b : Bool} : Describes .boolean (.bool b)
  | integer {n : Int} : Describes .integer (.int n)
  | integral {x : Double} {n : Int} (h : Quantity.ofDouble x = Quantity.ofInt n) :
      Describes .integer (.float x)
  | whole {n : Int} : Describes .number (.int n)
  | decimal {x : Double} : Describes .number (.float x)
  | string {s : String} : Describes .string (.string s)
  | array {items : List Document} : Describes .array (.array items)
  | object {fields : List (String × Document)} : Describes .object (.object fields)

theorem isWhole_iff (x : Double) :
    x.isWhole = true ↔ ∃ n : Int, Quantity.ofDouble x = Quantity.ofInt n := by
  rw [Double.isWhole, Bool.and_eq_true, beq_iff_eq, Quantity.ofDouble]
  constructor
  · rintro ⟨hfinite, hmod⟩
    obtain ⟨n, hn⟩ := Int.dvd_of_emod_eq_zero hmod
    exact ⟨n, by rw [if_pos hfinite, Quantity.ofInt, hn, Int.mul_comm]⟩
  · rintro ⟨n, hn⟩
    by_cases hfinite : x.isFinite = true
    · rw [if_pos hfinite, Quantity.ofInt, Quantity.finite.injEq] at hn
      exact ⟨hfinite, by rw [hn, Int.mul_emod_left]⟩
    · -- what is not finite is no quantity of a whole number
      rw [if_neg hfinite, Quantity.ofInt] at hn
      split at hn
      · cases hn
      · split at hn <;> cases hn

namespace SchemaType

/-- A type holds of a document as the standard describes. -/
theorem holds_iff (t : SchemaType) (d : Document) : t.holds d = true ↔ t.Describes d := by
  constructor
  · intro h
    cases t <;> cases d <;> try cases h
    case integer.float x =>
      obtain ⟨n, hn⟩ := (isWhole_iff x).mp h
      exact .integral hn
    all_goals constructor
  · intro h
    cases h with
    | integral h => exact (isWhole_iff _).mpr ⟨_, h⟩
    | _ => rfl

instance (t : SchemaType) (d : Document) : Decidable (t.Describes d) :=
  decidable_of_iff _ (t.holds_iff d)

end SchemaType

def Keyword.kind? : Keyword → Option Kind
  | .type _ => none
  | .required _ => some .object
  | .properties _ => some .object
  | .items _ => some .array
  | .minLength _ => some .string
  | .additionalProperties _ => some .object

namespace Schema

mutual

inductive Conforms : Schema → Document → Prop
  | intro {schema : Schema} {d : Document}
      (h : ∀ keyword ∈ schema, Obeys schema.propertyNames keyword d) : Conforms schema d

/-- What a keyword of a schema that names the given properties asks for. Values of a kind that the
keyword does not speak of obey it. -/
inductive Obeys : List String → Keyword → Document → Prop
  | type {names : List String} {types : List SchemaType} {d : Document}
      (h : ∃ t ∈ types, t.Describes d) : Obeys names (.type types) d
  | required {names keys : List String} {fields : List (String × Document)}
      (h : ∀ key ∈ keys, ∃ value, Ledger.get? key fields = some value) :
      Obeys names (.required keys) (.object fields)
  | properties {names : List String} {entries : List (String × List Keyword)}
      {fields : List (String × Document)}
      (h : ∀ entry ∈ entries, ∀ value, Ledger.get? entry.1 fields = some value →
        Conforms entry.2 value) :
      Obeys names (.properties entries) (.object fields)
  | items {names : List String} {part : Schema} {items : List Document}
      (h : ∀ item ∈ items, Conforms part item) : Obeys names (.items part) (.array items)
  | minLength {names : List String} {limit : Quantity} {s : String}
      (h : (Quantity.ofInt s.length).less limit = false) :
      Obeys names (.minLength limit) (.string s)
  | additional {names : List String} {part : Schema} {fields : List (String × Document)}
      (h : ∀ entry ∈ fields, entry.1 ∉ names → Conforms part entry.2) :
      Obeys names (.additionalProperties part) (.object fields)
  | elsewhere {names : List String} {keyword : Keyword} {d : Document} {kind : Kind}
      (hk : keyword.kind? = some kind) (hd : d.kind ≠ kind) : Obeys names keyword d

end

theorem conforms_iff {schema : Schema} {d : Document} :
    Conforms schema d ↔ ∀ keyword ∈ schema, Obeys schema.propertyNames keyword d :=
  ⟨fun ⟨h⟩ => h, .intro⟩

/-! A keyword is obeyed exactly if it reports nothing, once the parts of the value are known to be
judged rightly. -/

section Parts

variable {names : List String} {d : Document}

theorem sizeOf_item {items : List Document} {item : Document} (hi : item ∈ items) :
    sizeOf item < sizeOf (Document.array items) := by
  have h := List.sizeOf_lt_of_mem hi
  rw [Document.array.sizeOf_spec]
  omega

theorem sizeOf_value {fields : List (String × Document)} {entry : String × Document}
    (he : entry ∈ fields) : sizeOf entry.2 < sizeOf (Document.object fields) := by
  have h := List.sizeOf_lt_of_mem he
  have hentry : sizeOf entry.2 < sizeOf entry := by
    rw [Prod.mk.sizeOf_spec]
    omega
  rw [Document.object.sizeOf_spec]
  omega

/-- A keyword finds no violation exactly if the document obeys it. -/
theorem obeys_iff {keyword : Keyword}
    (ih : ∀ part, sizeOf part < sizeOf d → ∀ schema, Meets schema part ↔ Conforms schema part) :
    keywordViolations names keyword d = [] ↔ Obeys names keyword d := by
  cases keyword with
  | type types =>
    rw [typeViolations_eq_nil]
    simp only [SchemaType.holds_iff]
    refine ⟨.type, ?_⟩
    rintro (h | _ | _ | _ | _ | _ | ⟨⟨⟩, _⟩)
    exact h
  | required keys =>
    cases d with
    | object fields =>
      rw [requiredViolations_eq_nil]
      refine ⟨.required, ?_⟩
      rintro (_ | h | _ | _ | _ | _ | ⟨⟨⟩, hd⟩)
      · exact h
      · exact absurd rfl hd
    | _ => exact ⟨fun _ => .elsewhere rfl nofun, fun _ => rfl⟩
  | properties entries =>
    cases d with
    | object fields =>
      have hpart (part : Schema) {key : String} {value : Document}
          (hg : Ledger.get? key fields = some value) : Meets part value ↔ Conforms part value :=
        ih _ (sizeOf_value (Ledger.mem_of_get? hg)) part
      rw [entryViolations_eq_nil]
      constructor
      · intro h
        exact .properties fun entry he value hg => (hpart _ hg).mp (h entry he value hg)
      · rintro (_ | _ | h | _ | _ | _ | ⟨⟨⟩, hd⟩)
        · exact fun entry he value hg => (hpart _ hg).mpr (h entry he value hg)
        · exact absurd rfl hd
    | _ => exact ⟨fun _ => .elsewhere rfl nofun, fun _ => rfl⟩
  | items part =>
    cases d with
    | array items =>
      rw [itemViolations_eq_nil]
      constructor
      · intro h
        exact .items fun item hi => (ih item (sizeOf_item hi) part).mp (h item hi)
      · rintro (_ | _ | _ | h | _ | _ | ⟨⟨⟩, hd⟩)
        · exact fun item hi => (ih item (sizeOf_item hi) part).mpr (h item hi)
        · exact absurd rfl hd
    | _ => exact ⟨fun _ => .elsewhere rfl nofun, fun _ => rfl⟩
  | minLength limit =>
    cases d with
    | string s =>
      rw [lengthViolations_eq_nil]
      refine ⟨.minLength, ?_⟩
      rintro (_ | _ | _ | _ | h | _ | ⟨⟨⟩, hd⟩)
      · exact h
      · exact absurd rfl hd
    | _ => exact ⟨fun _ => .elsewhere rfl nofun, fun _ => rfl⟩
  | additionalProperties part =>
    cases d with
    | object fields =>
      rw [additionalViolations_eq_nil]
      simp only [List.contains_iff_mem, or_iff_not_imp_left]
      constructor
      · intro h
        exact .additional fun entry he hn =>
          (ih entry.2 (sizeOf_value he) part).mp (h entry he hn)
      · rintro (_ | _ | _ | _ | _ | h | ⟨⟨⟩, hd⟩)
        · exact fun entry he hn => (ih entry.2 (sizeOf_value he) part).mpr (h entry he hn)
        · exact absurd rfl hd
    | _ => exact ⟨fun _ => .elsewhere rfl nofun, fun _ => rfl⟩

end Parts

/-- The verdict is right: no violations are found in what conforms, and in nothing else. -/
theorem meets_iff_conforms (d : Document) : ∀ schema, Meets schema d ↔ Conforms schema d := by
  -- on the size of the document: every keyword descends into smaller parts
  induction hn : sizeOf d using Nat.strongRecOn generalizing d with
  | ind n ih =>
    intro schema
    rw [meets_iff_keywords, conforms_iff]
    subst hn
    have hparts (part : Document) (hp : sizeOf part < sizeOf d) (schema : Schema) :
        Meets schema part ↔ Conforms schema part := ih _ hp part rfl schema
    exact forall₂_congr fun keyword _ => obeys_iff hparts

end Schema

end IngressControl
