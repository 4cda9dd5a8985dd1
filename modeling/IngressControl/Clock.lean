/-!
Moments of universal time and their text.
-/

namespace IngressControl

structure Moment where
  year : Nat
  month : Nat
  day : Nat
  hour : Nat
  minute : Nat
  second : Nat
  microsecond : Nat
deriving DecidableEq, Repr, Inhabited

namespace Moment

def padded (width n : Nat) : String :=
  let digits := Nat.toDigits 10 n
  String.ofList (List.replicate (width - digits.length) '0' ++ digits)

/-- Date and time without an offset; the microseconds are written only if there are any. -/
def dateTime (m : Moment) : String :=
  let fraction := if m.microsecond = 0 then "" else "." ++ padded 6 m.microsecond
  "-".intercalate [padded 4 m.year, padded 2 m.month, padded 2 m.day] ++ "T" ++
    ":".intercalate [padded 2 m.hour, padded 2 m.minute, padded 2 m.second] ++ fraction

def withOffset (m : Moment) : String := m.dateTime ++ "+00:00"

def withLetter (m : Moment) : String := m.dateTime ++ "Z"

end Moment

end IngressControl
