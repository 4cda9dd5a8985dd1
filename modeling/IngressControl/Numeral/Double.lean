/-!
Double-precision numbers as exact values: a sign and a significand times a power of two.
Rounding goes to the nearest double, a tie to the even significand.
-/

namespace IngressControl.Numeral

/-- A double-precision number. The magnitude is its encoding without the sign bit, which grows with
the absolute value; infinity comes after all finite magnitudes, and what comes after infinity is no
number. -/
structure Double where
  negative : Bool
  magnitude : Nat
deriving DecidableEq, Repr, Inhabited

namespace Double

def hiddenBit : Nat := Nat.pow 2 52

def perOne : Int := Nat.pow 2 1074

def infinite : Nat := 2047 * hiddenBit

def isFinite (x : Double) : Bool := decide (x.magnitude < infinite)

def undefined : Double := ⟨false, infinite + 1⟩

def isUndefined (x : Double) : Bool := decide (infinite < x.magnitude)

def wordBeyond (x : Double) : List Char :=
  if x.isUndefined then ['n', 'a', 'n']
  else (if x.negative then ['-'] else []) ++ ['i', 'n', 'f']

def isZero (x : Double) : Bool := x.magnitude == 0

/-- The significand: the absolute value is `x.significand * 2 ^ x.exponent`. -/
def significand (x : Double) : Nat :=
  if x.magnitude < hiddenBit then x.magnitude else hiddenBit + x.magnitude % hiddenBit

/-- The exponent of the significand's last bit, which is at least -1074. -/
def exponent (x : Double) : Int :=
  if x.magnitude < hiddenBit then -1074 else (x.magnitude / hiddenBit : Nat) - 1075

/-- The value in units of 2 ^ -1074, in which every finite double is whole. -/
def units (x : Double) : Int :=
  let size : Nat := x.significand * Nat.pow 2 (x.exponent + 1074).toNat
  if x.negative then -size else size

def isWhole (x : Double) : Bool := x.isFinite && x.units % perOne == 0

def truncate (x : Double) : Int := x.units.tdiv perOne

def fraction (x : Double) : Nat × Nat :=
  if 0 ≤ x.exponent then (x.significand * Nat.pow 2 x.exponent.toNat, 1)
  else (x.significand, Nat.pow 2 (-x.exponent).toNat)

/-- The quotient to the nearest whole number, a tie to the even one. -/
def roundHalfEven (num den : Nat) : Nat :=
  let quotient := num / den
  let twice := 2 * (num % den)
  if twice < den then quotient
  else if den < twice then quotient + 1
  else quotient + quotient % 2

def ofFraction (negative : Bool) (num den : Nat) : Double :=
  let guess : Int := (num.log2 : Int) - (den.log2 : Int) - 53
  let scaled (e : Int) : Nat × Nat :=
    if 0 ≤ e then (num, den * Nat.pow 2 e.toNat) else (num * Nat.pow 2 (-e).toNat, den)
  let fits (e : Int) : Bool := let (a, b) := scaled e; decide (a / b < 2 * hiddenBit)
  let e : Int := max (-1074) (if fits guess then guess else guess + 1)
  let (a, b) := scaled e
  ⟨negative, min infinite ((e + 1074).toNat * hiddenBit + roundHalfEven a b)⟩

def ofDecimal (negative : Bool) (digits : Nat) (power : Int) : Double :=
  if digits = 0 then ⟨negative, 0⟩
  else if 400 < power then ⟨negative, infinite⟩
  else if power < -(400 + (digits.log2 : Int)) then ⟨negative, 0⟩
  else if 0 ≤ power then ofFraction negative (digits * Nat.pow 10 power.toNat) 1
  else ofFraction negative digits (Nat.pow 10 (-power).toNat)

end Double

end IngressControl.Numeral
