import IngressControl.Proofs.Reordering
import IngressControl.Schema.Check

/-! What schemas can tell. A document without violations has the parts that its schema describes,
and no schema tells documents apart that differ in the order of their items or entries only. -/

namespace IngressControl.Schema
open Document (Fieldwise Itemwise SameEntries)

/-- A document has no violations of a schema. -/
def Meets (schema : Schema) (d : Document) : Prop :=
  violationsOf schema.propertyNames schema d = []

def SameVerdict (d d' : Document) : Prop :=
  ∀ names schema, violationsOf names schema d = [] ↔ violationsOf names schema d' = []

theorem SameVerdict.refl (d : Document) : SameVerdict d d := fun _ _ => .rfl

theorem SameVerdict.meets {d d' : Document} (h : SameVerdict d d') (schema : Schema) :
    Meets schema d ↔ Meets schema d' := h _ schema

@[simp] theorem violations_eq_nil (schema : Schema) (d : Document) :
    schema.violations d = [] ↔ Meets schema d := by
  rw [violations, ← List.length_eq_zero_iff, List.length_mergeSort, List.length_eq_zero_iff, Meets]

/-- There is no report exactly for a document that meets the schema. -/
@[simp] theorem report_eq_none (schema : Schema) (d : Document) :
    report schema d = none ↔ Meets schema d := by
  rw [← violations_eq_nil, report]
  cases schema.violations d <;> simp

/-! What each keyword asks for. -/

section Keywords

variable {names : List String} {fields : List (String × Document)}

@[simp] theorem typeViolations_eq_nil {types : List SchemaType} {d : Document} :
    keywordViolations names (.type types) d = [] ↔ ∃ t ∈ types, t.holds d = true := by
  change (if types.any (fun t => t.holds d) then [] else [Violation.mk [] (.type d types)]) = [] ↔ _
  rw [← List.any_eq_true]
  split
  · rename_i hany
    exact ⟨fun _ => hany, fun _ => rfl⟩
  · rename_i hnone
    exact ⟨fun h => absurd h (List.cons_ne_nil _ _), fun h => absurd h hnone⟩

@[simp] theorem requiredViolations_eq_nil {keys : List String} :
    keywordViolations names (.required keys) (.object fields) = [] ↔
      ∀ key ∈ keys, ∃ v, Ledger.get? key fields = some v := by
  change ((keys.filter fun key => (Ledger.get? key fields).isNone).map
    fun key => Violation.mk [] (.missing key)) = [] ↔ _
  rw [List.map_eq_nil_iff, List.filter_eq_nil_iff]
  simp only [Option.isNone_iff_eq_none, ← Option.ne_none_iff_exists', ne_eq]

@[simp] theorem entryViolations_eq_nil {entries : List (String × List Keyword)} :
    keywordViolations names (.properties entries) (.object fields) = [] ↔
      ∀ entry ∈ entries, ∀ v, Ledger.get? entry.1 fields = some v → Meets entry.2 v := by
  change entryViolations entries fields = [] ↔ _
  induction entries with
  | nil => exact ⟨fun _ entry he => absurd he List.not_mem_nil, fun _ => rfl⟩
  | cons entry rest ih =>
    rw [entryViolations, List.append_eq_nil_iff, ih, List.forall_mem_cons]
    apply and_congr_left
    intro _
    cases Ledger.get? entry.1 fields with
    | none => simp
    | some v => simp [Meets]

@[simp] theorem itemViolations_eq_nil {schema : Schema} {items : List Document} :
    keywordViolations names (.items schema) (.array items) = [] ↔
      ∀ item ∈ items, Meets schema item := by
  change (items.zipIdx.flatMap fun item =>
    (violationsOf schema.propertyNames schema item.1).map
      (Violation.below (toString item.2))) = [] ↔ _
  simp only [List.flatMap_eq_nil_iff, List.map_eq_nil_iff]
  constructor
  · intro h item hi
    obtain ⟨i, hi, rfl⟩ := List.mem_iff_getElem.mp hi
    exact h (items[i], i) (List.mem_zipIdx_iff_getElem?.mpr (by simp))
  · rintro h ⟨item, i⟩ hi
    exact h item (List.fst_mem_of_mem_zipIdx hi)

@[simp] theorem lengthViolations_eq_nil {limit : Numeral.Quantity} {s : String} :
    keywordViolations names (.minLength limit) (.string s) = [] ↔
      (Numeral.Quantity.ofInt s.length).less limit = false := by
  change (if (Numeral.Quantity.ofInt s.length).less limit then
    [Violation.mk [] (.short s limit)] else []) = [] ↔ _
  rw [← Bool.not_eq_true]
  split
  · rename_i hless
    exact ⟨fun h => absurd h (List.cons_ne_nil _ _), fun h => absurd hless h⟩
  · rename_i hnot
    exact ⟨fun _ => hnot, fun _ => rfl⟩

@[simp] theorem additionalViolations_eq_nil {schema : Schema} :
    keywordViolations names (.additionalProperties schema) (.object fields) = [] ↔
      ∀ entry ∈ fields, names.contains entry.1 = true ∨ Meets schema entry.2 := by
  change (fields.flatMap fun entry => if names.contains entry.1 then []
    else (violationsOf schema.propertyNames schema entry.2).map
      (Violation.below entry.1)) = [] ↔ _
  rw [List.flatMap_eq_nil_iff]
  apply forall₂_congr
  rintro ⟨key, value⟩ -
  by_cases hkey : names.contains key = true
  · simp only [hkey, if_true, true_or]
  · simp only [hkey, if_false, false_or, List.map_eq_nil_iff, Bool.false_eq_true]
    rfl

end Keywords

/-- A schema is met if every keyword of it is. -/
theorem meets_iff_keywords {schema : Schema} {d : Document} :
    Meets schema d ↔
      ∀ keyword ∈ schema, keywordViolations schema.propertyNames keyword d = [] := by
  unfold Meets
  generalize schema.propertyNames = names
  induction schema with
  | nil => exact ⟨fun _ => nofun, fun _ => rfl⟩
  | cons first rest ih => rw [violationsOf, List.append_eq_nil_iff, ih, List.forall_mem_cons]

/-- A document that meets a schema has no violation of any of its keywords. -/
theorem Meets.keyword {schema : Schema} {d : Document} (h : Meets schema d) {keyword : Keyword}
    (hk : keyword ∈ schema) : keywordViolations schema.propertyNames keyword d = [] :=
  meets_iff_keywords.mp h keyword hk

theorem Meets.type {schema : Schema} {d : Document} (h : Meets schema d) {types : List SchemaType}
    (hk : .type types ∈ schema) : ∃ t ∈ types, t.holds d = true :=
  typeViolations_eq_nil.mp (h.keyword hk)

/-- What meets a schema of objects is an object. -/
theorem Meets.object {schema : Schema} {d : Document} (h : Meets schema d)
    (hk : .type [.object] ∈ schema) : ∃ fields, d = .object fields := by
  obtain ⟨t, ht, hd⟩ := h.type hk
  obtain rfl := List.mem_singleton.mp ht
  cases d with
  | object fields => exact ⟨fields, rfl⟩
  | _ => cases hd

theorem Meets.array {schema : Schema} {d : Document} (h : Meets schema d)
    (hk : .type [.array] ∈ schema) : ∃ items, d = .array items := by
  obtain ⟨t, ht, hd⟩ := h.type hk
  obtain rfl := List.mem_singleton.mp ht
  cases d with
  | array items => exact ⟨items, rfl⟩
  | _ => cases hd

/-- The field of an object meets the part of the schema for its key. -/
theorem Meets.property {schema : Schema} {fields : List (String × Document)}
    (h : Meets schema (.object fields)) {entries : List (String × List Keyword)}
    (hk : .properties entries ∈ schema) {key : String} {part : Schema}
    (he : (key, part) ∈ entries) {v : Document} (hv : Ledger.get? key fields = some v) :
    Meets part v :=
  entryViolations_eq_nil.mp (h.keyword hk) _ he v hv

/-- A field that is read is not there, or meets its part of the schema. -/
theorem Meets.field {schema : Schema} {fields : List (String × Document)}
    (h : Meets schema (.object fields)) {entries : List (String × List Keyword)}
    (hk : .properties entries ∈ schema) {key : String} {part : Schema}
    (he : (key, part) ∈ entries) :
    Delivers (fun v => v = .null ∨ Meets part v) ((Document.object fields).field key) := by
  refine ⟨_, rfl, ?_⟩
  cases hg : Ledger.get? key fields with
  | none => exact Or.inl rfl
  | some v => exact Or.inr (h.property hk he hg)

/-- A field that the schema requires is there. -/
theorem Meets.exists_field {schema : Schema} {fields : List (String × Document)}
    (h : Meets schema (.object fields)) {keys : List String} (hk : .required keys ∈ schema)
    {key : String} (he : key ∈ keys) : ∃ v, Ledger.get? key fields = some v :=
  requiredViolations_eq_nil.mp (h.keyword hk) key he

/-- What the schema of an object asks for, if it names required keys and properties. -/
theorem meets_object_iff {keys : List String} {entries : List (String × List Keyword)}
    {fields : List (String × Document)} :
    Meets [.type [.object], .required keys, .properties entries] (.object fields) ↔
      (∀ key ∈ keys, ∃ v, Ledger.get? key fields = some v) ∧
        ∀ entry ∈ entries, ∀ v, Ledger.get? entry.1 fields = some v → Meets entry.2 v := by
  rw [meets_iff_keywords]
  simp only [List.forall_mem_cons]
  rw [typeViolations_eq_nil, requiredViolations_eq_nil, entryViolations_eq_nil]
  constructor
  · rintro ⟨-, hkeys, hentries, -⟩
    exact ⟨hkeys, hentries⟩
  · rintro ⟨hkeys, hentries⟩
    exact ⟨⟨.object, List.mem_singleton_self _, rfl⟩, hkeys, hentries, List.forall_mem_nil _⟩

/-- A required field is there, and it meets its part of the schema. -/
theorem Meets.require {schema : Schema} {d : Document} (h : Meets schema d)
    (ht : .type [.object] ∈ schema) {keys : List String} (hr : .required keys ∈ schema)
    {entries : List (String × List Keyword)} (hk : .properties entries ∈ schema) {key : String}
    {part : Schema} (hkey : key ∈ keys) (he : (key, part) ∈ entries) :
    Delivers (Meets part) (d.require key) := by
  obtain ⟨fields, rfl⟩ := h.object ht
  obtain ⟨v, hv⟩ := h.exists_field hr hkey
  refine ⟨v, ?_, h.property hk he hv⟩
  rw [Document.require, hv]

/-- Every element of a list meets the schema of the elements. -/
theorem Meets.item {schema : Schema} {items : List Document} (h : Meets schema (.array items))
    {part : Schema} (hk : .items part ∈ schema) : ∀ item ∈ items, Meets part item :=
  itemViolations_eq_nil.mp (h.keyword hk)

/-- The same holds if the object itself may be missing. -/
theorem field_orEmpty {schema : Schema} {d : Document} (h : d = .null ∨ Meets schema d)
    (ht : .type [.object] ∈ schema) {entries : List (String × List Keyword)}
    (hk : .properties entries ∈ schema) {key : String} {part : Schema}
    (he : (key, part) ∈ entries) :
    Delivers (fun v => v = .null ∨ Meets part v) (d.orEmpty.field key) := by
  rcases h with rfl | h
  · exact ⟨.null, rfl, Or.inl rfl⟩
  · obtain ⟨fields, rfl⟩ := h.object ht
    simpa using h.field hk he

/-- The elements that a list or null gives meet the schema of the elements. -/
theorem items_orNone {part : Schema} {d : Document}
    (h : d = .null ∨ Meets [.type [.array], .items part] d) :
    Delivers (fun items => ∀ item ∈ items, Meets part item) d.elementsOrNone := by
  rcases h with rfl | h
  · exact ⟨[], rfl, fun item hi => absurd hi List.not_mem_nil⟩
  · obtain ⟨items, rfl⟩ := h.array List.mem_cons_self
    simpa using ⟨items, rfl, h.item (List.mem_cons_of_mem _ List.mem_cons_self)⟩

/-- What meets the schema of texts that are not empty is one. -/
theorem Meets.text {d : Document} (h : Meets nonEmptyText d) : ∃ s, d = .string s ∧ s ≠ "" := by
  obtain ⟨t, ht, hd⟩ := h.type (.head _)
  obtain rfl := List.mem_singleton.mp ht
  cases d with
  | string s =>
    refine ⟨s, rfl, ?_⟩
    have hlength := lengthViolations_eq_nil.mp (h.keyword (.tail _ (.head _)))
    rw [Numeral.Quantity.less_ofInt] at hlength
    rintro rfl
    cases hlength
  | _ => cases hd

/-- What the keywords one by one do not tell apart, no schema does. -/
theorem sameVerdict_of_keywords {d d' : Document} (h : ∀ names keyword,
    keywordViolations names keyword d = [] ↔ keywordViolations names keyword d' = []) :
    SameVerdict d d' := by
  intro names schema
  induction schema with
  | nil => exact Iff.rfl
  | cons keyword rest ih =>
    change keywordViolations names keyword d ++ violationsOf names rest d = [] ↔
      keywordViolations names keyword d' ++ violationsOf names rest d' = []
    rw [List.append_eq_nil_iff, List.append_eq_nil_iff, h names keyword, ih]

/-- Documents of the same types agree on every check of types. -/
theorem sameType_of_holds {names : List String} {types : List SchemaType} {d d' : Document}
    (h : ∀ t : SchemaType, t.holds d = t.holds d') :
    keywordViolations names (.type types) d = [] ↔
      keywordViolations names (.type types) d' = [] := by
  rw [typeViolations_eq_nil, typeViolations_eq_nil]
  simp only [h]

/-- Objects whose fields have the same verdicts have the same verdicts. -/
theorem sameVerdict_of_fieldwise {R : String → Document → Document → Prop}
    (hr : ∀ key d d', R key d d' → SameVerdict d d') {d d' : Document} (h : Fieldwise R d d') :
    SameVerdict d d' := by
  cases h with
  | same => exact .refl _
  | @fields xs ys hf =>
    refine sameVerdict_of_keywords fun names keyword => ?_
    cases keyword with
    | type types => exact sameType_of_holds fun t => by cases t <;> rfl
    | required keys =>
      rw [requiredViolations_eq_nil, requiredViolations_eq_nil]
      apply forall₂_congr
      intro key _
      rcases Document.get?_of_fields hf key with ⟨hx, hy⟩ | ⟨v, w, hx, hy, -⟩
      · simp [hx, hy]
      · simp [hx, hy]
    | properties entries =>
      rw [entryViolations_eq_nil, entryViolations_eq_nil]
      apply forall₂_congr
      rintro ⟨key, part⟩ -
      rcases Document.get?_of_fields hf key with ⟨hx, hy⟩ | ⟨v, w, hx, hy, hv⟩
      · simp [hx, hy]
      · simpa [hx, hy] using (hr key v w hv).meets part
    | additionalProperties schema =>
      rw [additionalViolations_eq_nil, additionalViolations_eq_nil]
      induction hf with
      | nil => simp
      | @cons x y xs ys hxy _ ih =>
        obtain ⟨hkey, hv⟩ := hxy
        rw [List.forall_mem_cons, List.forall_mem_cons, hkey, (hr _ _ _ hv).meets schema, ih]
    | items schema => exact Iff.rfl
    | minLength limit => exact Iff.rfl

/-- Lists whose elements have the same verdicts have the same verdicts. -/
theorem sameVerdict_of_itemwise {R : Document → Document → Prop}
    (hr : ∀ d d', R d d' → SameVerdict d d') {d d' : Document} (h : Itemwise R d d') :
    SameVerdict d d' := by
  cases h with
  | same => exact .refl _
  | @items xs ys hi =>
    refine sameVerdict_of_keywords fun names keyword => ?_
    cases keyword with
    | type types => exact sameType_of_holds fun t => by cases t <;> rfl
    | items schema =>
      rw [itemViolations_eq_nil, itemViolations_eq_nil]
      constructor
      · intro h y hy
        obtain ⟨x, hx, hxy⟩ := hi.exists_left hy
        exact ((hr x y hxy).meets schema).mp (h x hx)
      · intro h x hx
        obtain ⟨y, hy, hxy⟩ := hi.exists_right hx
        exact ((hr x y hxy).meets schema).mpr (h y hy)
    | required keys => exact Iff.rfl
    | properties entries => exact Iff.rfl
    | additionalProperties schema => exact Iff.rfl
    | minLength limit => exact Iff.rfl

/-- The pieces make up the text, but for one separator between neighbours. -/
theorem length_pieces (sep : Char) (cs : List Char) :
    (Text.pieces sep cs).flatten.length + (Text.pieces sep cs).length = cs.length + 1 := by
  induction cs with
  | nil => rfl
  | cons c cs ih =>
    rw [Text.pieces]
    split
    · simp only [List.flatten_cons, List.nil_append, List.length_cons]
      omega
    · split
      · rename_i hp
        rw [hp] at ih
        simp only [List.flatten_nil, List.length_nil] at ih
        omega
      · rename_i piece rest hp
        rw [hp] at ih
        simp only [List.flatten_cons, List.length_append, List.length_cons] at ih ⊢
        omega

/-- The order of the fields of an object changes no verdict. -/
theorem sameVerdict_of_entries {d d' : Document} (h : SameEntries d d') : SameVerdict d d' := by
  cases h with
  | same => exact .refl _
  | @entries s t hp =>
    -- all that a schema asks of a text is its length
    have hlength : s.length = t.length := by
      have hs := length_pieces ',' s.toList
      have ht := length_pieces ',' t.toList
      rw [hp.flatten.length_eq, hp.length_eq, ht] at hs
      rw [String.length_toList, String.length_toList] at hs
      omega
    refine sameVerdict_of_keywords fun names keyword => ?_
    cases keyword with
    | type types => exact sameType_of_holds fun t => by cases t <;> rfl
    | minLength limit => simp [hlength]
    | items schema => exact Iff.rfl
    | required keys => exact Iff.rfl
    | properties entries => exact Iff.rfl
    | additionalProperties schema => exact Iff.rfl

end IngressControl.Schema
