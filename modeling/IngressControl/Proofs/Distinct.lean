import IngressControl.Proofs.Violations

/-! Reports without repetitions. If no key stands twice in an object, neither in a schema nor in a
document, a path leads to one value at most, and nothing that this value lacks is told twice. -/

namespace IngressControl

def Keyword.word : Keyword → String
  | .type _ => "type"
  | .required _ => "required"
  | .properties _ => "properties"
  | .items _ => "items"
  | .minLength _ => "minLength"
  | .additionalProperties _ => "additionalProperties"

def Shortcoming.word : Shortcoming → String
  | .type _ _ => "type"
  | .missing _ => "required"
  | .short _ _ => "minLength"

def Keyword.names : Keyword → List String
  | .required keys => keys
  | .properties entries => entries.map Prod.fst
  | _ => []

def Keyword.schemas : Keyword → List Schema
  | .properties entries => entries.map Prod.snd
  | .items part => [part]
  | .additionalProperties part => [part]
  | _ => []

def Document.parts : Document → List Document
  | .array items => items
  | .object fields => fields.map Prod.snd
  | _ => []

/-- A schema in which no keyword stands twice and no keyword names a key twice, nor in its parts. -/
inductive Schema.Regular : Schema → Prop
  | intro {schema : Schema} (words : (schema.map Keyword.word).Nodup)
      (names : ∀ keyword ∈ schema, keyword.names.Nodup)
      (parts : ∀ part ∈ schema.flatMap Keyword.schemas, Regular part) : Regular schema

inductive Document.Regular : Document → Prop
  | intro {d : Document} (keys : ∀ fields, d = .object fields → (Ledger.keys fields).Nodup)
      (parts : ∀ part ∈ d.parts, Regular part) : Regular d

namespace Schema

/-- At most one element contributes, and it contributes at most one image. -/
theorem length_flatMap_le_one {α β : Type} {xs : List α} {f : α → List β}
    (hone : ∀ x ∈ xs, (f x).length ≤ 1) (halone : xs.Pairwise fun x y => f x = [] ∨ f y = []) :
    (xs.flatMap f).length ≤ 1 := by
  induction xs with
  | nil => exact Nat.zero_le 1
  | cons x rest ih =>
    obtain ⟨hx, hrest⟩ := List.pairwise_cons.mp halone
    rw [List.flatMap_cons, List.length_append]
    by_cases hnil : f x = []
    · rw [hnil, List.length_nil, Nat.zero_add]
      exact ih (fun y hy => hone y (List.mem_cons_of_mem _ hy)) hrest
    · have hempty : rest.flatMap f = [] :=
        List.flatMap_eq_nil_iff.mpr fun y hy => (hx y hy).resolve_left hnil
      rw [hempty, List.length_nil, Nat.add_zero]
      exact hone x List.mem_cons_self

/-- What is done for one key only is done once at most. -/
theorem length_flatMap_key {α β κ : Type} [DecidableEq κ] {xs : List α} {key : α → κ}
    (hn : (xs.map key).Nodup) (k : κ) {f : α → List β} (hone : ∀ x ∈ xs, (f x).length ≤ 1)
    (hkey : ∀ x ∈ xs, key x ≠ k → f x = []) :
    (xs.flatMap f).length ≤ 1 := by
  refine length_flatMap_le_one hone ?_
  refine (List.pairwise_map.mp hn).imp_of_mem fun {x y} hx hy hne => ?_
  by_cases h : key x = k
  · exact Or.inr (hkey y hy fun hy => hne (h.trans hy.symm))
  · exact Or.inl (hkey x hx h)

/-- Different numbers are written differently. -/
theorem toString_injective : Function.Injective (toString : Nat → String) := by
  intro m n h
  have hdigits : Nat.toDigits 10 m = Nat.toDigits 10 n := by
    rw [← Nat.toList_repr, ← Nat.toList_repr, ← Nat.toString_eq_repr, h, Nat.toString_eq_repr]
  rw [← Nat.ofDigitChars_ten_toDigits (n := m), hdigits, Nat.ofDigitChars_ten_toDigits]

def wordAt (names : List String) (step : String) : Document → String
  | .array _ => "items"
  | _ => if step ∈ names then "properties" else "additionalProperties"

section Regular

variable {schema : Schema} {d : Document}

/-- A keyword reaches a part only by the steps that are its own. -/
theorem partsAt_eq_nil {keyword : Keyword} (hk : keyword ∈ schema) {step : String}
    (hw : keyword.word ≠ wordAt schema.propertyNames step d) :
    keyword.partsAt schema.propertyNames step d = [] := by
  cases keyword with
  | properties entries =>
    cases d with
    | object fields =>
      refine List.flatMap_eq_nil_iff.mpr fun entry he => if_neg ?_
      rintro rfl
      refine hw (if_pos ?_).symm
      exact List.mem_flatMap.mpr ⟨_, hk, List.mem_map_of_mem he⟩
    | _ => rfl
  | additionalProperties part =>
    cases d with
    | object fields =>
      refine List.flatMap_eq_nil_iff.mpr fun entry _ => if_neg ?_
      rintro ⟨-, hstep⟩
      exact hw (if_neg hstep).symm
    | _ => rfl
  | items part =>
    cases d with
    | array items => exact absurd rfl hw
    | _ => rfl
  | _ => cases d <;> rfl

/-- A keyword reaches at most one part by one step. -/
theorem length_keyword_partsAt {keyword : Keyword} (hn : keyword.names.Nodup) (hd : d.Regular)
    (names : List String) (step : String) :
    (keyword.partsAt names step d).length ≤ 1 := by
  cases keyword with
  | properties entries =>
    cases d with
    | object fields =>
      refine length_flatMap_key hn step (fun entry _ => ?_) fun entry _ h => if_neg h
      split
      · cases Ledger.get? step fields <;> simp
      · simp
    | _ => exact Nat.zero_le 1
  | additionalProperties part =>
    cases d with
    | object fields =>
      obtain ⟨hkeys, -⟩ := hd
      refine length_flatMap_key (hkeys fields rfl) step (fun entry _ => ?_) fun entry _ h =>
        if_neg fun h' => h h'.1
      split <;> simp
    | _ => exact Nat.zero_le 1
  | items part =>
    cases d with
    | array items =>
      have hpos : (items.zipIdx.map fun item => toString item.2).Nodup := by
        have hpositions : (items.zipIdx.map Prod.snd).Nodup := by
          rw [List.zipIdx_map_snd]
          exact List.nodup_range'
        have htexts := hpositions.map toString_injective
        rw [List.map_map] at htexts
        exact htexts
      refine length_flatMap_key hpos step (fun item _ => ?_) fun item _ h => if_neg h
      split <;> simp
    | _ => exact Nat.zero_le 1
  | _ => cases d <;> exact Nat.zero_le 1

/-- What a keyword reaches is checked against one of its schemas, and is a part of the document. -/
theorem mem_partsAt {keyword : Keyword} {names : List String} {step : String}
    {x : Schema × Document} (hx : x ∈ keyword.partsAt names step d) :
    x.1 ∈ keyword.schemas ∧ x.2 ∈ d.parts := by
  cases keyword with
  | properties entries =>
    cases d with
    | object fields =>
      obtain ⟨entry, he, hx⟩ := List.mem_flatMap.mp hx
      split at hx
      · obtain ⟨value, hv, rfl⟩ := Option.map_eq_some_iff.mp (Option.mem_toList.mp hx)
        exact ⟨List.mem_map_of_mem he, List.mem_map_of_mem (Ledger.mem_of_get? hv)⟩
      · cases hx
    | _ => cases hx
  | additionalProperties part =>
    cases d with
    | object fields =>
      obtain ⟨entry, he, hx⟩ := List.mem_flatMap.mp hx
      split at hx
      · obtain rfl := List.mem_singleton.mp hx
        exact ⟨List.mem_singleton_self part, List.mem_map_of_mem he⟩
      · cases hx
    | _ => cases hx
  | items part =>
    cases d with
    | array items =>
      obtain ⟨item, hi, hx⟩ := List.mem_flatMap.mp hx
      split at hx
      · obtain rfl := List.mem_singleton.mp hx
        exact ⟨List.mem_singleton_self part, List.fst_mem_of_mem_zipIdx hi⟩
      · cases hx
    | _ => cases hx
  | _ => cases d <;> cases hx

/-- A step leads to one part at most. -/
theorem length_partsAt (hs : schema.Regular) (hd : d.Regular) (step : String) :
    (schema.flatMap fun keyword => keyword.partsAt schema.propertyNames step d).length ≤ 1 := by
  obtain ⟨hwords, hnames, -⟩ := hs
  exact length_flatMap_key hwords (wordAt schema.propertyNames step d)
    (fun keyword hk => length_keyword_partsAt (hnames keyword hk) hd _ step)
    fun keyword hk => partsAt_eq_nil hk

theorem pairwise_of_length_le_one {α : Type} {R : α → α → Prop} {xs : List α}
    (h : xs.length ≤ 1) : xs.Pairwise R := by
  match xs, h with
  | [], _ => exact .nil
  | [x], _ => exact List.pairwise_singleton R x

/-- A path leads to one value at most, which is judged by one schema. -/
theorem length_reached (path : List String) : ∀ {schema : Schema} {d : Document}, schema.Regular →
    d.Regular → (reached path schema d).length ≤ 1 ∧ ∀ x ∈ reached path schema d, x.1.Regular := by
  induction path with
  | nil =>
    intro schema d hs _
    refine ⟨Nat.le_refl 1, fun x hx => ?_⟩
    obtain rfl := List.mem_singleton.mp hx
    exact hs
  | cons step path ih =>
    intro schema d hs hd
    have hone := length_partsAt hs hd step
    have hnext : ∀ x ∈ schema.flatMap fun keyword =>
        keyword.partsAt schema.propertyNames step d, x.1.Regular ∧ x.2.Regular := by
      intro x hx
      obtain ⟨keyword, hk, hx⟩ := List.mem_flatMap.mp hx
      obtain ⟨hpart, hvalue⟩ := mem_partsAt hx
      obtain ⟨-, -, hparts⟩ := hs
      obtain ⟨-, hvalues⟩ := hd
      exact ⟨hparts _ (List.mem_flatMap.mpr ⟨keyword, hk, hpart⟩), hvalues _ hvalue⟩
    constructor
    · exact length_flatMap_le_one (fun x hx => (ih (hnext x hx).1 (hnext x hx).2).1)
        (pairwise_of_length_le_one hone)
    · intro y hy
      obtain ⟨x, hx, hy⟩ := List.mem_flatMap.mp hy
      exact (ih (hnext x hx).1 (hnext x hx).2).2 y hy

/-- A shortcoming names the keyword that finds it. -/
theorem word_of_mem_lacks {keyword : Keyword} {d : Document} {x : Shortcoming}
    (hx : x ∈ keyword.lacks d) : x.word = keyword.word := by
  cases keyword with
  | type types =>
    rw [Keyword.lacks] at hx
    split at hx
    · cases hx
    · rw [List.mem_singleton.mp hx]
      rfl
  | required keys =>
    cases d with
    | object fields =>
      obtain ⟨key, -, rfl⟩ := List.mem_map.mp hx
      rfl
    | _ => cases hx
  | minLength limit =>
    cases d with
    | string s =>
      rw [Keyword.lacks] at hx
      split at hx
      · rw [List.mem_singleton.mp hx]
        rfl
      · cases hx
    | _ => cases hx
  | _ => cases d <;> cases hx

theorem nodup_keyword_lacks {keyword : Keyword} (hn : keyword.names.Nodup) (d : Document) :
    (keyword.lacks d).Nodup := by
  cases keyword with
  | type types =>
    rw [Keyword.lacks]
    split
    · exact List.nodup_nil
    · exact List.nodup_singleton _
  | required keys =>
    cases d with
    | object fields =>
      exact (hn.filter _).map fun _ _ he => Shortcoming.missing.inj he
    | _ => exact List.nodup_nil
  | minLength limit =>
    cases d with
    | string s =>
      rw [Keyword.lacks]
      split
      · exact List.nodup_singleton _
      · exact List.nodup_nil
    | _ => exact List.nodup_nil
  | _ => cases d <;> exact List.nodup_nil

/-- A value lacks nothing twice. -/
theorem nodup_lacks (hs : schema.Regular) (d : Document) : (schema.lacks d).Nodup := by
  obtain ⟨hwords, hnames, -⟩ := hs
  refine List.nodup_flatMap.mpr ⟨fun keyword hk => nodup_keyword_lacks (hnames keyword hk) d, ?_⟩
  refine (List.pairwise_map.mp hwords).imp fun {k k'} hne x hx hx' => hne ?_
  rw [← word_of_mem_lacks hx, ← word_of_mem_lacks hx']

end Regular

/-! The schema of ingresses names nothing twice. -/

theorem regular_ofTypes (types : List SchemaType) : (ofTypes types).Regular :=
  .intro (List.nodup_singleton _) (by simp [ofTypes, Keyword.names]) nofun

theorem regular_nonEmptyText : nonEmptyText.Regular :=
  .intro (by decide) (by decide) nofun

theorem regular_backend : backend.Regular := by
  refine .intro (by decide) (by decide) ?_
  change ∀ part ∈ [nonEmptyText, ofTypes [.integer, .string]], Regular part
  simp [regular_nonEmptyText, regular_ofTypes]

theorem regular_metadata : metadata.Regular := by
  have hannotations : Regular [.type [.object], .additionalProperties (ofTypes [.string])] := by
    refine .intro (by decide) (by decide) ?_
    change ∀ part ∈ [ofTypes [.string]], Regular part
    simp [regular_ofTypes]
  refine .intro (by decide) (by decide) ?_
  change ∀ part ∈ [nonEmptyText, nonEmptyText,
    [.type [.object], .additionalProperties (ofTypes [.string])]], Regular part
  simp [regular_nonEmptyText, hannotations]

theorem Regular.list {part : Schema} (h : part.Regular) :
    Regular [.type [.array], .items part] := by
  refine .intro (by simp [Keyword.word]) (by simp [Keyword.names]) ?_
  change ∀ part' ∈ [part], Regular part'
  simp [h]

theorem regular_path : path.Regular := by
  refine .intro (by decide) (by decide) ?_
  change ∀ part ∈ [ofTypes [.string], backend], Regular part
  simp [regular_ofTypes, regular_backend]

theorem regular_rule : rule.Regular := by
  have hhttp : Regular [.type [.object], .required ["paths"],
      .properties [("paths", [.type [.array], .items path])]] := by
    refine .intro (by decide) (by decide) ?_
    change ∀ part ∈ [[.type [.array], .items path]], Regular part
    simp [regular_path.list]
  refine .intro (by decide) (by decide) ?_
  change ∀ part ∈ [ofTypes [.string], [.type [.object], .required ["paths"],
    .properties [("paths", [.type [.array], .items path])]]], Regular part
  simp [regular_ofTypes, hhttp]

/-- The schema of an ingress is regular. -/
theorem regular_ingress : ingress.Regular := by
  have hspec : Regular [.type [.object],
      .properties [("backend", backend), ("rules", [.type [.array], .items rule])]] := by
    refine .intro (by decide) (by decide) ?_
    change ∀ part ∈ [backend, [.type [.array], .items rule]], Regular part
    simp [regular_backend, regular_rule.list]
  refine .intro (by decide) (by decide) ?_
  change ∀ part ∈ [metadata, [.type [.object],
    .properties [("backend", backend), ("rules", [.type [.array], .items rule])]]], Regular part
  simp [regular_metadata, hspec]

/-! The reports. -/

/-- A list of violations of a document in the order of their paths. At every path it has what the
values there lack, in the order of the keywords. -/
structure Lists (schema : Schema) (d : Document) (found : List Violation) : Prop where
  ordered : found.Pairwise fun v w => NoLater v.path w.path
  complete : ∀ path, shortcomingsAt path found =
    (reached path schema d).flatMap fun x => x.1.lacks x.2
  /-- If nothing is named twice, no violation stands twice and no path leads to two values. -/
  once : schema.Regular → d.Regular →
    found.Nodup ∧ ∀ path, (reached path schema d).length ≤ 1

/-- The violations of a document are a list of them as it should be. -/
theorem lists_violations (schema : Schema) (d : Document) :
    Lists schema d (schema.violations d) := by
  have hcomplete (path : List String) : shortcomingsAt path (schema.violations d) =
      (reached path schema d).flatMap fun x => x.1.lacks x.2 := by
    rw [shortcomingsAt_violations, shortcomingsAt_violationsOf]
  refine ⟨pairwise_violations schema d, hcomplete, fun hs hd => ⟨?_, fun path => ?_⟩⟩
  · -- no shortcoming stands twice at one path, and elsewhere the paths differ
    refine nodup_of_shortcomingsAt fun path => ?_
    obtain ⟨hone, hregular⟩ := length_reached path hs hd
    rw [hcomplete, List.nodup_flatMap]
    exact ⟨fun x hx => nodup_lacks (hregular x hx) x.2, pairwise_of_length_le_one hone⟩
  · exact (length_reached path hs hd).1

/-- A report is given exactly if the document does not conform to the schema. It has an entry for
each of its violations, one after the other. -/
theorem report_exact (schema : Schema) (d : Document) :
    (report schema d = none ↔ Conforms schema d) ∧
      (¬Conforms schema d → ∃ found, found ≠ [] ∧ Lists schema d found ∧
        report schema d = some ("; ".intercalate (found.map Violation.message))) := by
  have haccepts : report schema d = none ↔ Conforms schema d := by
    simp [meets_iff_conforms]
  refine ⟨haccepts, fun hn => ?_⟩
  have hfound : schema.violations d ≠ [] := by
    simpa [meets_iff_conforms]
  refine ⟨schema.violations d, hfound, lists_violations schema d, ?_⟩
  rw [report, if_neg (by rwa [List.isEmpty_iff])]

end Schema

namespace Shop
open Schema

def nameless : Document :=
  .object [("metadata", .object []),
    ("spec", .object [("backend", .object [("servicePort", .int 80)])])]

/-- An object of regular fields under different keys is regular. -/
theorem regular_object {fields : List (String × Document)} (hkeys : (Ledger.keys fields).Nodup)
    (hparts : ∀ entry ∈ fields, entry.2.Regular) : (Document.object fields).Regular := by
  refine .intro (fun others he => ?_) fun part hp => ?_
  · cases he
    exact hkeys
  · obtain ⟨entry, he, rfl⟩ := List.mem_map.mp hp
    exact hparts entry he

theorem regular_nameless : nameless.Regular := by
  have hport : Document.Regular (.int 80) := .intro nofun nofun
  have hbackend : Document.Regular (.object [("servicePort", .int 80)]) :=
    regular_object (by decide) (by simp [hport])
  have hspec : Document.Regular
      (.object [("backend", .object [("servicePort", .int 80)])]) :=
    regular_object (by decide) (by simp [hbackend])
  have hmetadata : Document.Regular (.object []) := regular_object List.nodup_nil nofun
  exact regular_object (by decide) (by simp [hmetadata, hspec])

/-- Both shortcomings are reported, each once. -/
theorem reported_nameless :
    Schema.ingress.Regular ∧ nameless.Regular ∧ ¬Conforms Schema.ingress nameless ∧
    ∃ found : List Violation, found.Nodup ∧
      shortcomingsAt ["metadata"] found = [.missing "name"] ∧
      shortcomingsAt ["spec", "backend"] found = [.missing "serviceName"] ∧
      report Schema.ingress nameless = some ("; ".intercalate (found.map Violation.message)) := by
  have hn : ¬Conforms Schema.ingress nameless := by
    rw [← meets_iff_conforms]
    exact List.cons_ne_nil _ _
  obtain ⟨found, -, hlists, hreport⟩ := (report_exact Schema.ingress nameless).2 hn
  refine ⟨regular_ingress, regular_nameless, hn, found,
    (hlists.once regular_ingress regular_nameless).1, ?_, ?_, hreport⟩
  · rw [hlists.complete]
    rfl
  · rw [hlists.complete]
    rfl

end Shop

end IngressControl
