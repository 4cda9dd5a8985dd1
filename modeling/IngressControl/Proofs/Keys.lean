import IngressControl.Proofs.Outcome
import IngressControl.Proofs.Texts

/-! Documents as members of sets. Whatever can be a key stands for an element: a number for its
quantity, and anything else, what is no number included, for itself. Two keys are the same member
exactly if they stand for the same element, so collections of keys of any kind behave like sets. -/

namespace IngressControl
open Numeral (Quantity)

theorem Numeral.Quantity.same_iff (a b : Quantity) :
    a.same b = true ↔ a = b ∧ a ≠ .undefined := by
  cases a <;> cases b <;> simp [Quantity.same]

namespace Document

def IsKey (d : Document) : Prop := d.asKey = .ok d

def Keys (ds : List Document) : Prop := ∀ d ∈ ds, d.IsKey

def element (d : Document) : Quantity ⊕ Document :=
  match d.quantity? with
  | none => .inr d
  | some q => if q = .undefined then .inr d else .inl q

/-- Every document of the one list is among the other, and the other way round. -/
def SameSet (ds es : List Document) : Prop :=
  (∀ d ∈ ds, d.isAmong es = true) ∧ ∀ e ∈ es, e.isAmong ds = true

theorem element_of_quantity {d : Document} {q : Quantity} (hq : d.quantity? = some q) :
    d.element = if q = .undefined then .inr d else .inl q := by
  rw [element, hq]

theorem element_of_no_quantity {d : Document} (hq : d.quantity? = none) : d.element = .inr d := by
  rw [element, hq]

/-- Numbers are the same if their quantities are. -/
theorem same_of_quantities {d e : Document} {a b : Quantity} (ha : d.quantity? = some a)
    (hb : e.quantity? = some b) : d.same e = a.same b := by
  cases d <;> cases e <;> simp_all [same, quantity?]

/-- A number and something else are different, and so are keys that are no numbers, unless they are
identical. -/
theorem eq_of_same {d e : Document} (hd : d.IsKey) (hs : d.same e = true)
    (hq : d.quantity? = none ∨ e.quantity? = none) : d = e := by
  cases d <;> cases e <;> simp_all [same, quantity?, IsKey, asKey]

/-- Two keys are found in each other's place exactly if they stand for the same element. -/
theorem element_eq_iff {d e : Document} (hd : d.IsKey) :
    d.element = e.element ↔ d = e ∨ d.same e = true := by
  have hother (hq : d.quantity? = none ∨ e.quantity? = none) (hs : d = e ∨ d.same e = true) :
      d.element = e.element := by
    rcases hs with rfl | hs
    · rfl
    · rw [eq_of_same hd hs hq]
  -- two quantities are compared as such; otherwise only identical keys are the same
  cases ha : d.quantity? with
  | none =>
    refine ⟨fun he => ?_, hother (Or.inl ha)⟩
    rw [element_of_no_quantity ha] at he
    cases hb : e.quantity? with
    | none => exact Or.inl (Sum.inr.inj (he.trans (element_of_no_quantity hb)))
    | some b =>
      rw [element_of_quantity hb] at he
      split at he
      · exact Or.inl (Sum.inr.inj he)
      · cases he
  | some a =>
    cases hb : e.quantity? with
    | none =>
      refine ⟨fun he => ?_, hother (Or.inr hb)⟩
      rw [element_of_no_quantity hb, element_of_quantity ha] at he
      split at he
      · exact Or.inl (Sum.inr.inj he)
      · cases he
    | some b =>
      rw [same_of_quantities ha hb, Quantity.same_iff, element_of_quantity ha,
        element_of_quantity hb]
      constructor
      · intro he
        split at he <;> split at he <;> simp_all
      · rintro (rfl | ⟨rfl, hn⟩)
        · rw [Option.some.inj (ha.symm.trans hb)]
        · rw [if_neg hn, if_neg hn]

/-- No document tells a key from one that is the same. -/
theorem same_congr {d e : Document} (hd : d.IsKey) (h : d.same e = true) (x : Document) :
    x.same d = x.same e := by
  cases ha : d.quantity? with
  | none => rw [eq_of_same hd h (Or.inl ha)]
  | some a =>
    cases hb : e.quantity? with
    | none => rw [eq_of_same hd h (Or.inr hb)]
    | some b =>
      rw [same_of_quantities ha hb, Quantity.same_iff] at h
      obtain ⟨rfl, -⟩ := h
      cases hx : x.quantity? with
      | some c => rw [same_of_quantities hx ha, same_of_quantities hx hb]
      | none => cases x <;> cases d <;> cases e <;> simp_all [same, quantity?]

/-- Among keys, being equal to a document of a list is membership of the elements. -/
theorem isAmong_iff {d : Document} {ds : List Document} (hds : Keys ds) :
    d.isAmong ds = true ↔ d.element ∈ ds.map element := by
  simp only [isAmong, List.any_eq_true, Bool.or_eq_true, decide_eq_true_iff, List.mem_map]
  constructor
  · rintro ⟨e, he, hs⟩
    exact ⟨e, he, (element_eq_iff (hds e he)).mpr hs⟩
  · rintro ⟨e, he, hs⟩
    exact ⟨e, he, (element_eq_iff (hds e he)).mp hs⟩

/-- Lists of keys are the same set if they have the same elements. -/
theorem sameSet_iff {ds es : List Document} (hds : Keys ds) (hes : Keys es) :
    SameSet ds es ↔ ∀ e, e ∈ ds.map element ↔ e ∈ es.map element := by
  constructor
  · rintro ⟨hd, he⟩ e
    constructor
    · intro hm
      obtain ⟨d, hmem, rfl⟩ := List.mem_map.mp hm
      exact (isAmong_iff hes).mp (hd d hmem)
    · intro hm
      obtain ⟨d, hmem, rfl⟩ := List.mem_map.mp hm
      exact (isAmong_iff hds).mp (he d hmem)
  · intro h
    refine ⟨fun d hd => ?_, fun d hd => ?_⟩
    · exact (isAmong_iff hes).mpr ((h _).mp (List.mem_map_of_mem hd))
    · exact (isAmong_iff hds).mpr ((h _).mpr (List.mem_map_of_mem hd))

namespace Keys

variable {ds es : List Document}

theorem nil : Keys [] := fun _ h => absurd h List.not_mem_nil

theorem append (hd : Keys ds) (he : Keys es) : Keys (ds ++ es) := by
  intro d h
  rcases List.mem_append.mp h with h | h
  · exact hd d h
  · exact he d h

theorem mono (h : ∀ d ∈ es, d ∈ ds) (hd : Keys ds) : Keys es := fun d he => hd d (h d he)

end Keys

theorem Texts.keys {ds : List Document} (hd : Texts ds) : Keys ds := by
  intro d h
  obtain ⟨s, rfl⟩ := hd d h
  rfl

/-- Lists of texts that stand for the same elements have the same members. -/
theorem mem_iff_of_elements {ds es : List Document} (hd : Texts ds) (he : Texts es)
    (h : ∀ e, e ∈ ds.map element ↔ e ∈ es.map element) (d : Document) : d ∈ ds ↔ d ∈ es := by
  have hmem {xs : List Document} (hx : Texts xs) (s : String) :
      string s ∈ xs ↔ (string s).element ∈ xs.map element := by
    rw [← isAmong_iff hx.keys, isAmong_string_iff]
  constructor
  · intro hm
    obtain ⟨s, rfl⟩ := hd d hm
    rwa [hmem he, ← h, ← hmem hd]
  · intro hm
    obtain ⟨s, rfl⟩ := he d hm
    rwa [hmem hd, h, ← hmem he]

theorem keys_of_mapM {ds es : List Document} (h : ds.mapM asKey = .ok es) : es = ds ∧ Keys ds := by
  induction ds generalizing es with
  | nil => exact ⟨(Except.ok.inj h).symm, .nil⟩
  | cons d rest ih =>
    rw [List.mapM_cons] at h
    obtain ⟨d', hd, h⟩ := bind_eq_ok h
    obtain ⟨rest', hrest, h⟩ := bind_eq_ok h
    obtain rfl := Except.ok.inj h
    obtain ⟨rfl, hkeys⟩ := ih hrest
    have hself : d' = d := by cases d <;> simp_all [asKey]
    subst hself
    exact ⟨rfl, fun e he => by
      rcases List.mem_cons.mp he with rfl | he
      · exact hd
      · exact hkeys e he⟩

end Document

open Document (Keys)

namespace Cloud

/-- Joining is the union of the elements. -/
theorem elements_join {targets instances : List Document} (ht : Keys targets)
    (hi : Keys instances) (e : Quantity ⊕ Document) :
    e ∈ (join targets instances).map Document.element ↔
      e ∈ targets.map Document.element ∨ e ∈ instances.map Document.element := by
  induction instances generalizing targets with
  | nil => simp [join]
  | cons i rest ih =>
    have hrest : Keys rest := hi.mono fun d h => List.mem_cons_of_mem _ h
    have hi' : Keys [i] := hi.mono fun d h => by simp_all
    rw [join_cons, List.map_cons, List.mem_cons]
    split
    · -- what is there already stands for the same element
      rename_i hknown
      rw [Document.isAmong_iff ht] at hknown
      rw [ih ht hrest]
      constructor
      · tauto
      · rintro (h | rfl | h)
        · exact Or.inl h
        · exact Or.inl hknown
        · exact Or.inr h
    · rw [ih (ht.append hi') hrest, List.map_append, List.mem_append, List.map_singleton,
        List.mem_singleton]
      tauto

/-- Leaving is the difference of the elements. -/
theorem elements_leave {targets instances : List Document} (hi : Keys instances)
    (e : Quantity ⊕ Document) : e ∈ (leave targets instances).map Document.element ↔
      e ∈ targets.map Document.element ∧ e ∉ instances.map Document.element := by
  simp only [leave, List.mem_map, List.mem_filter, Bool.not_eq_true', ← Bool.not_eq_true,
    Document.isAmong_iff hi]
  constructor
  · rintro ⟨d, ⟨hd, hn⟩, rfl⟩
    exact ⟨⟨d, hd, rfl⟩, hn⟩
  · rintro ⟨⟨d, hd, rfl⟩, hn⟩
    exact ⟨d, ⟨hd, hn⟩, rfl⟩

end Cloud

end IngressControl
