import IngressControl.Document.Basic
import IngressControl.Proofs.Ledger
import IngressControl.Proofs.Outcome
import IngressControl.Text.Basic

/-! Documents that differ only in some of their parts, and there only in the order of items or of
comma separated entries. Reading such documents field by field gives results that differ in the same
way. -/

namespace IngressControl.Document

/-- Two documents are the same, or objects with the same keys whose values are related key by
key. -/
inductive Fieldwise (R : String → Document → Document → Prop) : Document → Document → Prop
  | same (d : Document) : Fieldwise R d d
  | fields {xs ys : List (String × Document)}
      (h : List.Forall₂ (fun x y => x.1 = y.1 ∧ R x.1 x.2 y.2) xs ys) :
      Fieldwise R (.object xs) (.object ys)

/-- Two documents are the same, or arrays with related items, in whatever order. -/
inductive Itemwise (R : Document → Document → Prop) : Document → Document → Prop
  | same (d : Document) : Itemwise R d d
  | items {xs ys : List Document} (h : Reordering R xs ys) : Itemwise R (.array xs) (.array ys)

inductive SameEntries : Document → Document → Prop
  | same (d : Document) : SameEntries d d
  | entries {s t : String} (h : (Text.pieces ',' s.toList).Perm (Text.pieces ',' t.toList)) :
      SameEntries (.string s) (.string t)

def under (key : String) (R : Document → Document → Prop) (k : String) (d d' : Document) : Prop :=
  if k = key then R d d' else d = d'

@[simp] theorem under_self (key : String) (R : Document → Document → Prop) :
    under key R key = R := by
  funext d d'
  simp [under]

theorem under_of_ne {key k : String} (h : k ≠ key) (R : Document → Document → Prop) :
    under key R k = Eq := by
  funext d d'
  simp [under, h]

section Fields

variable {R : String → Document → Document → Prop} {xs ys : List (String × Document)} {key : String}

/-- What is found under a key is related, or there is nothing on either side. -/
theorem get?_of_fields (h : List.Forall₂ (fun x y => x.1 = y.1 ∧ R x.1 x.2 y.2) xs ys)
    (key : String) :
    (Ledger.get? key xs = none ∧ Ledger.get? key ys = none) ∨
      ∃ v w, Ledger.get? key xs = some v ∧ Ledger.get? key ys = some w ∧ R key v w := by
  induction h with
  | nil => exact Or.inl ⟨rfl, rfl⟩
  | @cons x y xs ys hxy _ ih =>
    obtain ⟨k, v⟩ := x
    obtain ⟨k', w⟩ := y
    obtain ⟨rfl, hr⟩ := hxy
    by_cases hk : k = key
    · subst hk
      exact Or.inr ⟨v, w, by simp [Ledger.get?], by simp [Ledger.get?], hr⟩
    · simpa only [Ledger.get?, if_neg hk] using ih

/-- Under a key of which only the order is minded, the same is found. -/
theorem get?_eq_of_fields (h : List.Forall₂ (fun x y => x.1 = y.1 ∧ R x.1 x.2 y.2) xs ys)
    (hr : R key = Eq) : Ledger.get? key xs = Ledger.get? key ys := by
  rcases get?_of_fields h key with ⟨hx, hy⟩ | ⟨v, w, hx, hy, hv⟩
  · rw [hx, hy]
  · rw [hr] at hv
    rw [hx, hy, hv]

theorem getD_of_fields (h : List.Forall₂ (fun x y => x.1 = y.1 ∧ R x.1 x.2 y.2) xs ys)
    (byDefault : Document) (hr : R key byDefault byDefault) :
    R key ((Ledger.get? key xs).getD byDefault) ((Ledger.get? key ys).getD byDefault) := by
  rcases get?_of_fields h key with ⟨hx, hy⟩ | ⟨v, w, hx, hy, hv⟩
  · rw [hx, hy]
    exact hr
  · rw [hx, hy]
    exact hv

theorem Fieldwise.field {d d' : Document} (h : Fieldwise R d d') (key : String)
    (hr : ∀ d, R key d d) : Agree (R key) (d.field key) (d'.field key) := by
  cases h with
  | same => exact .refl hr _
  | fields hf => exact .ok (getD_of_fields hf .null (hr _))

theorem Fieldwise.isVoid {d d' : Document} (h : Fieldwise R d d') : d.isVoid = d'.isVoid := by
  cases h with
  | same => rfl
  | fields hf => cases hf <;> rfl

theorem Fieldwise.orEmpty {d d' : Document} (h : Fieldwise R d d') :
    Fieldwise R d.orEmpty d'.orEmpty := by
  rw [Document.orEmpty, Document.orEmpty, h.isVoid]
  split
  · exact .same _
  · exact h

end Fields

@[simp] theorem elementsOrNone_array (items : List Document) :
    (array items).elementsOrNone = .ok items := by
  cases items <;> rfl

@[simp] theorem orEmpty_object (fields : List (String × Document)) :
    (object fields).orEmpty = object fields := by
  cases fields <;> rfl

theorem Itemwise.elementsOrNone {R : Document → Document → Prop} (hr : ∀ d, R d d)
    {d d' : Document} (h : Itemwise R d d') :
    Agree (Reordering R) d.elementsOrNone d'.elementsOrNone := by
  cases h with
  | same => exact .refl (.refl hr) _
  | items hi => simpa using .ok hi

/-- The entries of texts are the same, whatever their order. -/
theorem SameEntries.parse {d d' : Document} (h : SameEntries d d') :
    (Text.Entries.parse d.display).Perm (Text.Entries.parse d'.display) := by
  cases h with
  | same => exact .refl _
  | entries hp => exact ((hp.map _).filter _).map _

end IngressControl.Document
