import IngressControl.Numeral.Double

/-! The shortest decimal of a double: of all decimals that read back as the double, one with the
fewest digits, and of those the nearest, a tie going to the even digit. -/

namespace IngressControl.Numeral

structure Decimal where
  digits : Nat
  power : Int
deriving DecidableEq, Repr

/-- Text of the digits, without the zeros at the end, and the power of ten of the first digit. -/
def Decimal.scientific (d : Decimal) : List Char × Int :=
  let text := Nat.toDigits 10 d.digits
  let kept := (text.reverse.dropWhile (· == '0')).reverse
  (if kept.isEmpty then ['0'] else kept, d.power + text.length - 1)

namespace Double

def width (n : Nat) : Nat := (Nat.toDigits 10 n).length

def leadingPower (num den : Nat) : Int :=
  if den ≤ num then (width (num / den) : Int) - 1
  else
    let shift := width (den / num) - 1
    if den ≤ num * Nat.pow 10 shift then -shift else -(shift + 1)

def candidates (x : Double) (count : Nat) : List Decimal :=
  let (num, den) := x.fraction
  let power := leadingPower num den - count + 1
  let (a, b) : Nat × Nat :=
    if 0 ≤ power then (num, den * Nat.pow 10 power.toNat)
    else (num * Nat.pow 10 (-power).toNat, den)
  let below := a / b
  let twice := 2 * (a % b)
  let first := decide (twice < b) || (twice == b && below % 2 == 0)
  let nearest := if first then [below, below + 1] else [below + 1, below]
  (nearest.filter (fun digits => (ofDecimal x.negative digits power).magnitude == x.magnitude)).map
    (Decimal.mk · power)

/-- The shortest decimal of a positive finite double; seventeen digits always suffice. -/
def shortest (x : Double) : Decimal :=
  ((List.range 17).findSome? (fun i => (x.candidates (i + 1)).head?)).getD ⟨0, 0⟩

/-- The shortest decimal as text: positional from 10 ^ -4 to below 10 ^ 16 and with at least one
digit after the point, otherwise with an exponent of a sign and at least two digits. -/
def render (x : Double) : String :=
  let sign := if x.negative then ['-'] else []
  if x.isZero then String.ofList (sign ++ ['0', '.', '0'])
  else if !x.isFinite then String.ofList x.wordBeyond
  else
    let (digits, power) := Decimal.scientific x.shortest
    let body :=
      if power < -4 || 16 ≤ power then
        let tail := if digits.length ≤ 1 then [] else '.' :: digits.drop 1
        let exponent := Nat.toDigits 10 power.natAbs
        digits.take 1 ++ tail ++ 'e' :: (if power < 0 then '-' else '+') ::
          (List.replicate (2 - exponent.length) '0' ++ exponent)
      else if power < 0 then
        '0' :: '.' :: (List.replicate (-power - 1).toNat '0' ++ digits)
      else
        let whole := power.toNat + 1
        let before := digits.take whole ++ List.replicate (whole - digits.length) '0'
        let after := digits.drop whole
        before ++ '.' :: (if after.isEmpty then ['0'] else after)
    String.ofList (sign ++ body)

end Double

end IngressControl.Numeral

/-! Doubles rounded to six significant digits, for tables. -/

namespace IngressControl.Numeral.Double

def shortDigits : Nat := 6

def rounded (x : Double) : Decimal :=
  let (num, den) := x.fraction
  let power := leadingPower num den - shortDigits + 1
  if 0 ≤ power then ⟨roundHalfEven num (den * Nat.pow 10 power.toNat), power⟩
  else ⟨roundHalfEven (num * Nat.pow 10 (-power).toNat) den, power⟩

/-- The text of a rounded double: positional from 10 ^ -4 to below 10 ^ 6, otherwise with an
exponent; zeros after the point are left out. -/
def renderShort (x : Double) : String :=
  let sign := if x.negative then ['-'] else []
  if x.isZero then String.ofList (sign ++ ['0'])
  else if !x.isFinite then String.ofList x.wordBeyond
  else
    let (digits, power) := x.rounded.scientific
    let fraction (cs : List Char) : List Char := if cs.isEmpty then [] else '.' :: cs
    let body :=
      if power < -4 || (shortDigits : Int) ≤ power then
        let exponent := Nat.toDigits 10 power.natAbs
        digits.take 1 ++ fraction (digits.drop 1) ++ 'e' :: (if power < 0 then '-' else '+') ::
          (List.replicate (2 - exponent.length) '0' ++ exponent)
      else if power < 0 then
        '0' :: '.' :: (List.replicate (-power - 1).toNat '0' ++ digits)
      else
        let whole := power.toNat + 1
        digits.take whole ++ List.replicate (whole - digits.length) '0' ++
          fraction (digits.drop whole)
    String.ofList (sign ++ body)

end IngressControl.Numeral.Double
