import IngressControl.Fault
import IngressControl.Numeral.Double
import IngressControl.Text.Basic

/-!
Reading numbers from text. Blanks around the number, a sign, single underscores between digits and
the decimal digits of every script are allowed.
-/

namespace IngressControl.Numeral

/-- The blanks that may surround a number: all but the information separators. -/
def isPadding (c : Char) : Bool :=
  Text.isBlank c && !(0x1c ≤ c.toNat && c.toNat ≤ 0x1f)

def takeDigits : List Char → List Nat × List Char
  | [] => ([], [])
  | c :: cs =>
    match Text.digitValue? c with
    | some d =>
      let (ds, rest) := takeDigits cs
      (d :: ds, rest)
    | none => ([], c :: cs)

/-- The groups of digits that single underscores separate, and the rest of the text; an underscore
that no digit follows belongs to the rest. -/
def takeGroups (cs : List Char) : List Nat × List Char :=
  go cs.length cs
where
  go : Nat → List Char → List Nat × List Char
    | 0, cs => ([], cs)
    | fuel + 1, cs =>
      match takeDigits cs with
      | ([], _) => ([], cs)
      | (ds, '_' :: rest) =>
        match go fuel rest with
        | ([], _) => (ds, '_' :: rest)
        | (more, rest') => (ds ++ more, rest')
      | (ds, rest) => (ds, rest)

def ofDigits (ds : List Nat) : Nat := ds.foldl (fun n d => 10 * n + d) 0

def takeSign : List Char → Bool × List Char
  | '-' :: cs => (true, cs)
  | '+' :: cs => (false, cs)
  | cs => (false, cs)

def maxDigits : Nat := 4300

def readWhole (s : String) : Except Fault Int :=
  let (negative, cs) := takeSign (Text.trimBy isPadding s.toList)
  match takeGroups cs with
  | ([], _) => .error (.wholeNumber s)
  | (ds, rest) =>
    if rest.head? = some '_' then .error (.wholeNumber s)
    else if maxDigits < ds.length then .error (.tooManyDigits ds.length)
    else if rest.isEmpty then
      .ok (if negative then -(ofDigits ds : Int) else ofDigits ds)
    else .error (.wholeNumber s)

def lowerAscii (cs : List Char) : List Char := cs.map Char.toLower

def readExponent (cs : List Char) : Option Int :=
  match cs with
  | [] => some 0
  | e :: rest =>
    if e = 'e' || e = 'E' then
      let (negative, rest) := takeSign rest
      match takeGroups rest with
      | ([], _) => none
      | (ds, []) => some (if negative then -(ofDigits ds : Int) else ofDigits ds)
      | _ => none
    else none

def readUnsigned (negative : Bool) (cs : List Char) : Option Double :=
  let (whole, rest) := takeGroups cs
  let (fraction, rest) : List Nat × List Char :=
    match rest with
    | '.' :: more => takeGroups more
    | _ => ([], rest)
  if whole.isEmpty && fraction.isEmpty then none
  else (readExponent rest).map (fun power =>
    Double.ofDecimal negative (ofDigits (whole ++ fraction)) (power - fraction.length))

/-- Reads a decimal number; what is not finite may be written as a word. -/
def readDecimal (s : String) : Except Fault Double :=
  let (negative, cs) := takeSign (Text.trimBy isPadding s.toList)
  let word := String.ofList (lowerAscii cs)
  if word == "inf" || word == "infinity" then .ok ⟨negative, Double.infinite⟩
  else if word == "nan" then .ok .undefined
  else match readUnsigned negative cs with
    | some x => .ok x
    | none => .error (.decimalNumber s)

end IngressControl.Numeral
