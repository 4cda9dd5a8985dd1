import IngressControl.Document.Basic

/-!
Identity of documents, which is decidable. It is finer than `Document.same`: it tells one from 1.0,
and it minds the order of fields. Collections look for a document by either of the two.
-/

namespace IngressControl.Document

mutual

def decEq : (a b : Document) → Decidable (a = b)
  | null, b => match b with
    | null => isTrue rfl
    | bool _ | int _ | float _ | string _ | array _ | object _ => isFalse nofun
  | bool x, b => match b with
    | bool y => decidable_of_iff (x = y) (by simp)
    | null | int _ | float _ | string _ | array _ | object _ => isFalse nofun
  | int x, b => match b with
    | int y => decidable_of_iff (x = y) (by simp)
    | null | bool _ | float _ | string _ | array _ | object _ => isFalse nofun
  | float x, b => match b with
    | float y => decidable_of_iff (x = y) (by simp)
    | null | bool _ | int _ | string _ | array _ | object _ => isFalse nofun
  | string x, b => match b with
    | string y => decidable_of_iff (x = y) (by simp)
    | null | bool _ | int _ | float _ | array _ | object _ => isFalse nofun
  | array xs, b => match b with
    | array ys =>
      have := decEqItems xs ys
      decidable_of_iff (xs = ys) (by simp)
    | null | bool _ | int _ | float _ | string _ | object _ => isFalse nofun
  | object xs, b => match b with
    | object ys =>
      have := decEqFields xs ys
      decidable_of_iff (xs = ys) (by simp)
    | null | bool _ | int _ | float _ | string _ | array _ => isFalse nofun

def decEqItems : (xs ys : List Document) → Decidable (xs = ys)
  | [], [] => isTrue rfl
  | [], _ :: _ => isFalse nofun
  | _ :: _, [] => isFalse nofun
  | x :: xs, y :: ys =>
    have := decEq x y
    have := decEqItems xs ys
    decidable_of_iff (x = y ∧ xs = ys) (by simp)

def decEqFields : (xs ys : List (String × Document)) → Decidable (xs = ys)
  | [], [] => isTrue rfl
  | [], _ :: _ => isFalse nofun
  | _ :: _, [] => isFalse nofun
  | (k, x) :: xs, (l, y) :: ys =>
    have := decEq x y
    have := decEqFields xs ys
    decidable_of_iff ((k = l ∧ x = y) ∧ xs = ys) (by simp)

end

instance : DecidableEq Document := decEq

/-- Whether a list holds a document, the very same or an equal one. What is no number equals
nothing, but is found where it stands. -/
def isAmong (d : Document) (ds : List Document) : Bool :=
  ds.any (fun other => decide (other = d) || other.same d)

end IngressControl.Document
