import IngressControl.Proofs.Conformance
import Mathlib.Data.List.Nodup

/-! What a report tells: everything that a value lacks at some path, in the order of the paths, and
at one path in the order of the keywords. -/

namespace IngressControl

open Numeral (Quantity)

namespace Keyword

/-- What a value itself lacks for a keyword, its parts apart. -/
def lacks : Keyword → Document → List Shortcoming
  | .type types, d => if ∃ t ∈ types, t.Describes d then [] else [.type d types]
  | .required keys, .object fields =>
    (keys.filter fun key => decide (key ∉ Ledger.keys fields)).map .missing
  | .minLength limit, .string s =>
    if (Quantity.ofInt s.length).less limit then [.short s limit] else []
  | _, _ => []

/-- The values to which a step leads, each with the schema that the keyword has for it. -/
def partsAt (names : List String) (step : String) : Keyword → Document → List (Schema × Document)
  | .properties entries, .object fields => entries.flatMap fun entry =>
    if entry.1 = step then ((Ledger.get? step fields).map fun value => (entry.2, value)).toList
    else []
  | .items part, .array values => values.zipIdx.flatMap fun item =>
    if toString item.2 = step then [(part, item.1)] else []
  | .additionalProperties part, .object fields => fields.flatMap fun entry =>
    if entry.1 = step ∧ step ∉ names then [(part, entry.2)] else []
  | _, _ => []

end Keyword

namespace Schema

/-- What a value itself lacks for a schema, in the order of the keywords. -/
def lacks (schema : Schema) (d : Document) : List Shortcoming :=
  schema.flatMap fun keyword => keyword.lacks d

/-- The values to which a path leads, each with the part of the schema that is for it. -/
def reached : List String → Schema → Document → List (Schema × Document)
  | [], schema, d => [(schema, d)]
  | step :: path, schema, d =>
    (schema.flatMap fun keyword => keyword.partsAt schema.propertyNames step d).flatMap fun x =>
      reached path x.1 x.2

def shortcomingsAt (path : List String) (vs : List Violation) : List Shortcoming :=
  (vs.filter fun v => decide (v.path = path)).map Violation.shortcoming

section At

variable {path : List String} {step : String}

@[simp] theorem shortcomingsAt_append (vs ws : List Violation) :
    shortcomingsAt path (vs ++ ws) = shortcomingsAt path vs ++ shortcomingsAt path ws := by
  rw [shortcomingsAt, List.filter_append, List.map_append]
  rfl

@[simp] theorem shortcomingsAt_flatMap {α : Type} (xs : List α) (f : α → List Violation) :
    shortcomingsAt path (xs.flatMap f) = xs.flatMap fun x => shortcomingsAt path (f x) := by
  induction xs with
  | nil => rfl
  | cons x rest ih => simp [ih]

theorem shortcomingsAt_here {α : Type} (xs : List α) (f : α → Shortcoming) :
    shortcomingsAt path (xs.map fun x => ⟨[], f x⟩) = if path = [] then xs.map f else [] := by
  cases path <;> simp [shortcomingsAt, List.filter_map, Function.comp_def]

@[simp] theorem shortcomingsAt_below_nil (vs : List Violation) :
    shortcomingsAt [] (vs.map (Violation.below step)) = [] := by
  simp [shortcomingsAt, List.filter_map, Function.comp_def, Violation.below]

/-- Below a step of the path are the shortcomings of the part that the step reaches. -/
@[simp] theorem shortcomingsAt_below_cons (first : String) (vs : List Violation) :
    shortcomingsAt (step :: path) (vs.map (Violation.below first)) =
      if first = step then shortcomingsAt path vs else [] := by
  by_cases h : first = step <;>
    simp [shortcomingsAt, List.filter_map, Function.comp_def, Violation.below, h]

end At

/-- The violations of a schema are those of its keywords, one keyword after the other. -/
theorem violationsOf_eq_flatMap (names : List String) (schema : Schema) (d : Document) :
    violationsOf names schema d =
      schema.flatMap fun keyword => keywordViolations names keyword d := by
  induction schema with
  | nil => rfl
  | cons keyword rest ih => rw [violationsOf, ih, List.flatMap_cons]

theorem entryViolations_eq_flatMap (entries : List (String × List Keyword))
    (fields : List (String × Document)) :
    entryViolations entries fields = entries.flatMap fun entry =>
      (Ledger.get? entry.1 fields).toList.flatMap fun value =>
        (violationsOf (propertyNames entry.2) entry.2 value).map (Violation.below entry.1) := by
  induction entries with
  | nil => rfl
  | cons entry rest ih =>
    rw [entryViolations, ih, List.flatMap_cons]
    cases Ledger.get? entry.1 fields <;> simp

/-- A keyword reports of the value itself what the value lacks. -/
theorem shortcomingsAt_nil (names : List String) (keyword : Keyword) (d : Document) :
    shortcomingsAt [] (keywordViolations names keyword d) = keyword.lacks d := by
  cases keyword with
  | type types =>
    have hany : (types.any fun t => t.holds d) = true ↔ ∃ t ∈ types, t.Describes d := by
      simp only [List.any_eq_true, SchemaType.holds_iff]
    change shortcomingsAt [] (if types.any (fun t => t.holds d) then [] else
      [Violation.mk [] (.type d types)]) = if ∃ t ∈ types, t.Describes d then [] else _
    simp only [hany]
    split <;> rfl
  | required keys =>
    cases d with
    | object fields =>
      have hmissing (key : String) :
          (Ledger.get? key fields).isNone = decide (key ∉ Ledger.keys fields) := by
        rw [Bool.eq_iff_iff, Option.isNone_iff_eq_none, Ledger.get?_eq_none_iff, decide_eq_true_iff]
      change shortcomingsAt [] ((keys.filter fun key => (Ledger.get? key fields).isNone).map
        fun key => Violation.mk [] (.missing key)) =
          (keys.filter fun key => decide (key ∉ Ledger.keys fields)).map .missing
      rw [shortcomingsAt_here, if_pos rfl]
      simp only [hmissing]
    | _ => rfl
  | properties entries =>
    cases d with
    | object fields =>
      change shortcomingsAt [] (entryViolations entries fields) = []
      simp only [entryViolations_eq_flatMap, shortcomingsAt_flatMap, shortcomingsAt_below_nil,
        List.flatMap_eq_nil_iff, implies_true]
    | _ => rfl
  | items part =>
    cases d with
    | array items =>
      change shortcomingsAt [] (items.zipIdx.flatMap fun item =>
        (violationsOf (propertyNames part) part item.1).map (Violation.below _)) = []
      simp only [shortcomingsAt_flatMap, shortcomingsAt_below_nil, List.flatMap_eq_nil_iff,
        implies_true]
    | _ => rfl
  | minLength limit =>
    cases d with
    | string s =>
      change shortcomingsAt [] (if (Quantity.ofInt s.length).less limit then
        [Violation.mk [] (.short s limit)] else []) =
          if (Quantity.ofInt s.length).less limit then [.short s limit] else []
      split <;> rfl
    | _ => rfl
  | additionalProperties part =>
    cases d with
    | object fields =>
      change shortcomingsAt [] (fields.flatMap fun entry => if names.contains entry.1 then [] else
        (violationsOf (propertyNames part) part entry.2).map (Violation.below entry.1)) = []
      rw [shortcomingsAt_flatMap, List.flatMap_eq_nil_iff]
      intro entry _
      split
      · rfl
      · exact shortcomingsAt_below_nil _
    | _ => rfl

/-- What a keyword reports behind a step is what is found in the parts to which the step leads. -/
theorem shortcomingsAt_cons (names : List String) (keyword : Keyword) (d : Document)
    (step : String) (path : List String) :
    shortcomingsAt (step :: path) (keywordViolations names keyword d) =
      (keyword.partsAt names step d).flatMap fun x =>
        shortcomingsAt path (violationsOf x.1.propertyNames x.1 x.2) := by
  cases keyword with
  | type types =>
    change shortcomingsAt (step :: path) (if types.any (fun t => t.holds d) then [] else
      [Violation.mk [] (.type d types)]) = []
    split <;> rfl
  | required keys =>
    cases d with
    | object fields =>
      change shortcomingsAt (step :: path) ((keys.filter _).map fun key =>
        Violation.mk [] (.missing key)) = []
      rw [shortcomingsAt_here, if_neg (List.cons_ne_nil _ _)]
    | _ => rfl
  | properties entries =>
    cases d with
    | object fields =>
      change shortcomingsAt (step :: path) (entryViolations entries fields) =
        (entries.flatMap fun entry => if entry.1 = step then _ else []).flatMap _
      rw [entryViolations_eq_flatMap, shortcomingsAt_flatMap, List.flatMap_assoc]
      congr 1
      funext entry
      rw [shortcomingsAt_flatMap]
      simp only [shortcomingsAt_below_cons]
      split
      · rename_i hkey
        subst hkey
        cases Ledger.get? entry.1 fields <;> rfl
      · simp
    | _ => rfl
  | items part =>
    cases d with
    | array items =>
      change shortcomingsAt (step :: path) (items.zipIdx.flatMap fun item =>
        (violationsOf (propertyNames part) part item.1).map (Violation.below (toString item.2))) =
          (items.zipIdx.flatMap fun item =>
            if toString item.2 = step then [(part, item.1)] else []).flatMap _
      rw [shortcomingsAt_flatMap, List.flatMap_assoc]
      congr 1
      funext item
      rw [shortcomingsAt_below_cons]
      split <;> simp
    | _ => rfl
  | minLength limit =>
    cases d with
    | string s =>
      change shortcomingsAt (step :: path) (if (Quantity.ofInt s.length).less limit then
        [Violation.mk [] (.short s limit)] else []) = []
      split <;> rfl
    | _ => rfl
  | additionalProperties part =>
    cases d with
    | object fields =>
      change shortcomingsAt (step :: path) (fields.flatMap fun entry =>
        if names.contains entry.1 then [] else
          (violationsOf (propertyNames part) part entry.2).map (Violation.below entry.1)) =
          (fields.flatMap fun entry =>
            if entry.1 = step ∧ step ∉ names then [(part, entry.2)] else []).flatMap _
      rw [shortcomingsAt_flatMap, List.flatMap_assoc]
      congr 1
      funext entry
      by_cases hkey : entry.1 = step
      · -- a field that the schema names is not additional
        subst hkey
        by_cases hnames : entry.1 ∈ names
        · simp [hnames, shortcomingsAt]
        · simp [hnames]
      · have helse : ¬(entry.1 = step ∧ step ∉ names) := fun h => hkey h.1
        rw [if_neg helse]
        split
        · rfl
        · simp [hkey]
    | _ => rfl

/-- Before they are ordered, the violations at a path are those of the values to which it leads. -/
theorem shortcomingsAt_violationsOf (path : List String) : ∀ (schema : Schema) (d : Document),
    shortcomingsAt path (violationsOf schema.propertyNames schema d) =
      (reached path schema d).flatMap fun x => x.1.lacks x.2 := by
  induction path with
  | nil =>
    intro schema d
    rw [violationsOf_eq_flatMap, shortcomingsAt_flatMap]
    simp only [shortcomingsAt_nil, reached, List.flatMap_singleton]
    rfl
  | cons step path ih =>
    intro schema d
    rw [violationsOf_eq_flatMap, shortcomingsAt_flatMap]
    simp only [shortcomingsAt_cons, ih, reached, List.flatMap_assoc]

/-! The order of paths. -/

/-- A path comes no later than another: it is its beginning, or has the smaller step where they
first differ. -/
def NoLater (p q : List String) : Prop :=
  p <+: q ∨ ∃ shared a b rest others, a < b ∧ p = shared ++ a :: rest ∧ q = shared ++ b :: others

theorem NoLater.cons {p q : List String} (h : NoLater p q) (step : String) :
    NoLater (step :: p) (step :: q) := by
  rcases h with h | ⟨shared, a, b, rest, others, hab, rfl, rfl⟩
  · exact Or.inl (List.cons_prefix_cons.mpr ⟨rfl, h⟩)
  · exact Or.inr ⟨step :: shared, a, b, rest, others, hab, rfl, rfl⟩

theorem not_precedes_cons {a b : String} {p q : List String} :
    precedes (b :: q) (a :: p) = false ↔ a < b ∨ a = b ∧ precedes q p = false := by
  rw [precedes]
  split
  · rename_i h
    simp [h]
  · rename_i h
    rw [decide_eq_false_iff_not, String.not_lt]
    constructor
    · intro hle
      by_contra hn
      rw [not_or, String.not_lt] at hn
      exact h (String.le_antisymm hn.1 hle)
    · rintro (hlt | ⟨rfl, -⟩)
      · exact String.not_lt.mp (String.lt_asymm hlt)
      · exact absurd rfl h

theorem noLater_of_not_precedes {p q : List String} (h : precedes q p = false) : NoLater p q := by
  induction p generalizing q with
  | nil => exact Or.inl List.nil_prefix
  | cons a rest ih =>
    cases q with
    | nil => cases h
    | cons b others =>
      rcases not_precedes_cons.mp h with hab | ⟨rfl, hrest⟩
      · exact Or.inr ⟨[], a, b, rest, others, hab, rfl, rfl⟩
      · exact (ih hrest).cons a

@[simp] theorem not_precedes_self (p : List String) : precedes p p = false := by
  induction p with
  | nil => rfl
  | cons a rest ih => exact not_precedes_cons.mpr (Or.inr ⟨rfl, ih⟩)

theorem not_precedes_trans {p q r : List String} (hqp : precedes q p = false)
    (hrq : precedes r q = false) : precedes r p = false := by
  induction p generalizing q r with
  | nil => cases r <;> rfl
  | cons a p ih =>
    cases q with
    | nil => cases hqp
    | cons b q =>
      cases r with
      | nil => cases hrq
      | cons c r =>
        rw [not_precedes_cons] at hqp hrq ⊢
        rcases hqp with hab | ⟨rfl, hqp⟩
        · rcases hrq with hbc | ⟨rfl, -⟩
          · exact Or.inl (String.lt_trans hab hbc)
          · exact Or.inl hab
        · exact hrq.imp_right fun h => ⟨h.1, ih hqp h.2⟩

theorem not_precedes_total (p q : List String) :
    precedes q p = false ∨ precedes p q = false := by
  induction p generalizing q with
  | nil => cases q <;> exact Or.inl rfl
  | cons a p ih =>
    cases q with
    | nil => exact Or.inr rfl
    | cons b q =>
      rw [not_precedes_cons, not_precedes_cons]
      by_cases hab : a < b
      · exact Or.inl (Or.inl hab)
      · by_cases hba : b < a
        · exact Or.inr (Or.inl hba)
        · have heq := String.le_antisymm (String.not_lt.mp hba) (String.not_lt.mp hab)
          exact (ih q).imp (fun h => Or.inr ⟨heq, h⟩) fun h => Or.inr ⟨heq.symm, h⟩

/-! The order in which violations are reported. -/

section Order

variable (schema : Schema) (d : Document)

theorem sorts_trans (u v w : Violation) (huv : (!precedes v.path u.path) = true)
    (hvw : (!precedes w.path v.path) = true) : (!precedes w.path u.path) = true := by
  rw [Bool.not_eq_true'] at huv hvw ⊢
  exact not_precedes_trans huv hvw

theorem sorts_total (v w : Violation) :
    (!precedes w.path v.path || !precedes v.path w.path) = true := by
  rw [Bool.or_eq_true, Bool.not_eq_true', Bool.not_eq_true']
  exact not_precedes_total v.path w.path

/-- No violation comes after one with a later path. -/
theorem pairwise_violations : (schema.violations d).Pairwise fun v w => NoLater v.path w.path := by
  refine (List.pairwise_mergeSort sorts_trans sorts_total _).imp fun h => ?_
  rw [Bool.not_eq_true'] at h
  exact noLater_of_not_precedes h

/-- Ordering keeps the violations at each path as they are. -/
theorem shortcomingsAt_violations (path : List String) :
    shortcomingsAt path (schema.violations d) =
      shortcomingsAt path (violationsOf schema.propertyNames schema d) := by
  set all := violationsOf schema.propertyNames schema d with hall
  have hpath : (all.filter fun v => decide (v.path = path)).Pairwise fun v w =>
      (!precedes w.path v.path) = true := by
    refine List.pairwise_of_forall_mem_list fun v hv w hw => ?_
    have hv := decide_eq_true_iff.mp (List.mem_filter.mp hv).2
    have hw := decide_eq_true_iff.mp (List.mem_filter.mp hw).2
    simp [hv, hw]
  -- what is in order already stays in its order, and nothing is added to it
  have hsub := (List.sublist_mergeSort sorts_trans sorts_total hpath List.filter_sublist).filter
    fun v => decide (v.path = path)
  rw [List.filter_filter] at hsub
  simp only [Bool.and_self] at hsub
  have hlength := ((List.mergeSort_perm all fun v w => !precedes w.path v.path).filter
    fun v => decide (v.path = path)).length_eq
  rw [shortcomingsAt, violations, ← hsub.eq_of_length hlength.symm, shortcomingsAt]

end Order

/-- Violations that differ at every path differ. -/
theorem nodup_of_shortcomingsAt {vs : List Violation}
    (h : ∀ path, (shortcomingsAt path vs).Nodup) : vs.Nodup := by
  rw [List.nodup_iff_sublist]
  intro v hv
  have hfilter := hv.filter fun w => decide (w.path = v.path)
  rw [List.filter_eq_self.mpr (by simp)] at hfilter
  have hpair := (hfilter.map Violation.shortcoming).nodup (h v.path)
  exact absurd hpair (by simp)

end Schema

end IngressControl
