import IngressControl.Numeral.Double

/-!
Quantities: whole numbers and doubles on one scale, on which they are compared exactly. What is no
number equals nothing and has no place in the order.
-/

namespace IngressControl.Numeral

inductive Quantity
  | least
  | finite (units : Int)
  | greatest
  | undefined
deriving DecidableEq, Repr

namespace Quantity

def ofInt (n : Int) : Quantity := finite (n * Double.perOne)

def ofDouble (x : Double) : Quantity :=
  if x.isFinite then finite x.units
  else if x.isUndefined then undefined
  else if x.negative then least
  else greatest

def same : Quantity → Quantity → Bool
  | least, least => true
  | finite a, finite b => a == b
  | greatest, greatest => true
  | _, _ => false

/-- Whether the first quantity is below the second. -/
def less : Quantity → Quantity → Bool
  | least, finite _ => true
  | least, greatest => true
  | finite a, finite b => decide (a < b)
  | finite _, greatest => true
  | _, _ => false

theorem cast_pow_ne_zero (k : Nat) : ((Nat.pow 2 k : Nat) : Int) ≠ 0 :=
  Int.natCast_ne_zero.mpr (Nat.ne_of_gt (Nat.two_pow_pos k))

@[simp] theorem same_ofInt (m n : Int) : (ofInt m).same (ofInt n) = decide (m = n) := by
  simp only [same, ofInt, Double.perOne]
  generalize (1074 : Nat) = k
  rw [Bool.eq_iff_iff, beq_iff_eq, decide_eq_true_iff]
  exact ⟨Int.eq_of_mul_eq_mul_right (cast_pow_ne_zero k), fun h => h ▸ rfl⟩

@[simp] theorem less_ofInt (m n : Int) : (ofInt m).less (ofInt n) = decide (m < n) := by
  simp only [less, ofInt, Double.perOne]
  generalize (1074 : Nat) = k
  rw [decide_eq_decide]
  exact Int.mul_lt_mul_right (Int.natCast_pos.mpr (Nat.two_pow_pos k))

end Quantity

end IngressControl.Numeral
