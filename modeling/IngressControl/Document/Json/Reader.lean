import IngressControl.Document.Basic

/-!
Reading JSON. The reader works on the list of characters that is left; where it stops, it keeps
the number of characters left, from which the position follows.
-/

namespace IngressControl.Json

open Numeral (Double)

inductive Failure
  | malformed (fault : JsonFault)
  | tooManyDigits (digits : Nat)
  | tooDeep (kind : Kind)
deriving DecidableEq, Repr

def Failure.toFault : Failure → Fault
  | .malformed fault => .clientSettings fault
  | .tooManyDigits digits => .tooManyDigits digits
  | .tooDeep kind => .tooDeep kind

/-- Where reading stopped: the reason and the number of characters left. -/
inductive Stop
  | because (reason : String) (left : Nat)
  | tooManyDigits (digits : Nat)
  | tooDeep (kind : Kind)
deriving DecidableEq, Repr

abbrev Step (α : Type) := Except Stop (α × List Char)

def isSpace (c : Char) : Bool := c == ' ' || c == '\t' || c == '\n' || c == '\r'

def skipSpace (cs : List Char) : List Char := cs.dropWhile isSpace

def hexQuad? : List Char → Option Nat
  | [a, b, c, d] => do
    let a ← Text.hexValue? a
    let b ← Text.hexValue? b
    let c ← Text.hexValue? c
    let d ← Text.hexValue? d
    return ((a * 16 + b) * 16 + c) * 16 + d
  | _ => none

def joinSurrogates (high low : Nat) : Nat :=
  0x10000 + (high - 0xd800) * 0x400 + (low - 0xdc00)

/-- The character after a backslash and a u, whose place is given by the text that starts with
that u. A surrogate without its partner gives the replacement character. -/
def readUnicode (fromU : List Char) : Step Char :=
  let after := fromU.drop 1
  let stop := Stop.because "Invalid \\uXXXX escape" fromU.length
  if after.length ≤ 4 then .error stop
  else match hexQuad? (after.take 4) with
    | none => .error stop
    | some high =>
      let rest := after.drop 4
      if 0xd800 ≤ high ∧ high ≤ 0xdbff then
        match rest with
        | '\\' :: 'u' :: more =>
          if rest.length ≤ 6 then .ok (Char.ofNat 0xfffd, rest)
          else match hexQuad? (more.take 4) with
            | none => .error (.because "Invalid \\uXXXX escape" (more.length + 1))
            | some low =>
              if 0xdc00 ≤ low ∧ low ≤ 0xdfff then
                .ok (Char.ofNat (joinSurrogates high low), more.drop 4)
              else .ok (Char.ofNat 0xfffd, rest)
        | _ => .ok (Char.ofNat 0xfffd, rest)
      else if 0xdc00 ≤ high ∧ high ≤ 0xdfff then .ok (Char.ofNat 0xfffd, rest)
      else .ok (Char.ofNat high, rest)

def simpleEscape? : Char → Option Char
  | '"' => some '"'
  | '\\' => some '\\'
  | '/' => some '/'
  | 'b' => some '\x08'
  | 'f' => some '\x0c'
  | 'n' => some '\n'
  | 'r' => some '\r'
  | 't' => some '\t'
  | _ => none

/-- The characters of a text up to its closing quote. The text starts where the given number of
characters is left; the fuel bounds the number of characters. -/
def readText (start : Nat) : Nat → List Char → Step (List Char)
  | 0, _ => .error (.because "Unterminated string starting at" start)
  | _ + 1, [] => .error (.because "Unterminated string starting at" start)
  | fuel + 1, c :: rest =>
    if c = '"' then .ok ([], rest)
    else if c = '\\' then
      match rest with
      | [] => .error (.because "Unterminated string starting at" start)
      | e :: more =>
        let next : Step Char :=
          if e = 'u' then readUnicode rest
          else match simpleEscape? e with
            | some escaped => .ok (escaped, more)
            | none => .error (.because "Invalid \\escape" (rest.length + 1))
        match next with
        | .error stop => .error stop
        | .ok (escaped, rest) => (readText start fuel rest).map (fun r => (escaped :: r.1, r.2))
    else if c.toNat ≤ 0x1f then .error (.because "Invalid control character at" (rest.length + 1))
    else (readText start fuel rest).map (fun r => (c :: r.1, r.2))

def readString (rest : List Char) : Step String :=
  (readText (rest.length + 1) (rest.length + 1) rest).map (fun r => (String.ofList r.1, r.2))

def isDigit (c : Char) : Bool := decide (48 ≤ c.toNat) && decide (c.toNat ≤ 57)

def digitValues (cs : List Char) : List Nat := cs.map (fun c => c.toNat - 48)

/-- The exponent after a decimal; a mark without digits is no exponent. -/
def readExponent (cs : List Char) : Option (Int × List Char) :=
  match cs with
  | e :: rest =>
    if e = 'e' || e = 'E' then
      let (negative, rest) := Numeral.takeSign rest
      let digits := rest.takeWhile isDigit
      if digits.isEmpty then none
      else
        let size : Int := Numeral.ofDigits (digitValues digits)
        some (if negative then -size else size, rest.dropWhile isDigit)
    else none
  | [] => none

def readNumber? (cs : List Char) : Option (Step Document) :=
  let (negative, body) : Bool × List Char :=
    match cs with
    | '-' :: rest => (true, rest)
    | _ => (false, cs)
  let whole :=
    match body with
    | '0' :: _ => ['0']
    | _ => body.takeWhile isDigit
  if whole.isEmpty then none
  else
    let rest := body.drop whole.length
    let fraction :=
      match rest with
      | '.' :: more => more.takeWhile isDigit
      | _ => []
    let afterPoint := if fraction.isEmpty then rest else rest.drop (fraction.length + 1)
    let exponent := readExponent afterPoint
    if fraction.isEmpty && exponent.isNone then
      if Numeral.maxDigits < whole.length then some (.error (.tooManyDigits whole.length))
      else
        let size : Int := Numeral.ofDigits (digitValues whole)
        some (.ok (.int (if negative then -size else size), rest))
    else
      let (power, rest) := exponent.getD (0, afterPoint)
      let digits := Numeral.ofDigits (digitValues (whole ++ fraction))
      some (.ok (.float (Double.ofDecimal negative digits (power - fraction.length)), rest))

def words : List (String × Document) :=
  [("null", .null), ("true", .bool true), ("false", .bool false), ("NaN", .float .undefined),
    ("Infinity", .float ⟨false, Double.infinite⟩), ("-Infinity", .float ⟨true, Double.infinite⟩)]

def readWord? (cs : List Char) : Option (Document × List Char) :=
  words.findSome? (fun (word, value) =>
    if word.toList.isPrefixOf cs then some (value, cs.drop word.length) else none)

def maxDepth : Nat := 990

mutual

/-- The value at the head of a text, which has no blanks in front. Containers may be inside each
other up to a depth; the fuel bounds the number of values. -/
def readValue (depth : Nat) : Nat → List Char → Step Document
  | 0, cs => .error (.because "Expecting value" cs.length)
  | fuel + 1, cs =>
    match cs with
    | '"' :: rest => (readString rest).map (fun r => (.string r.1, r.2))
    | '[' :: rest =>
      if depth = 0 then .error (.tooDeep .array)
      else match skipSpace rest with
        | ']' :: rest => .ok (.array [], rest)
        | rest => (readItems (depth - 1) fuel rest).map (fun r => (.array r.1, r.2))
    | '\x7b' :: rest =>
      if depth = 0 then .error (.tooDeep .object)
      else match skipSpace rest with
        | '\x7d' :: rest => .ok (.object [], rest)
        | rest => (readFields (depth - 1) fuel [] rest).map (fun r => (.object r.1, r.2))
    | _ =>
      match readWord? cs with
      | some r => .ok r
      | none =>
        match readNumber? cs with
        | some r => r
        | none => .error (.because "Expecting value" cs.length)

def readItems (depth : Nat) : Nat → List Char → Step (List Document)
  | 0, cs => .error (.because "Expecting value" cs.length)
  | fuel + 1, cs =>
    match readValue depth fuel cs with
    | .error stop => .error stop
    | .ok (item, rest) =>
      match skipSpace rest with
      | ']' :: rest => .ok ([item], rest)
      | ',' :: rest => (readItems depth fuel (skipSpace rest)).map (fun r => (item :: r.1, r.2))
      | rest => .error (.because "Expecting ',' delimiter" rest.length)

/-- The fields of an object up to its closing brace, after those already read. A key that comes
again keeps its place and takes the new value. -/
def readFields (depth : Nat) :
    Nat → List (String × Document) → List Char → Step (List (String × Document))
  | 0, _, cs => .error (.because "Expecting value" cs.length)
  | fuel + 1, done, cs =>
    match cs with
    | '"' :: rest =>
      match readString rest with
      | .error stop => .error stop
      | .ok (key, rest) =>
        match skipSpace rest with
        | ':' :: rest =>
          match readValue depth fuel (skipSpace rest) with
          | .error stop => .error stop
          | .ok (value, rest) =>
            let done := Ledger.put key value done
            match skipSpace rest with
            | '\x7d' :: rest => .ok (done, rest)
            | ',' :: rest => readFields depth fuel done (skipSpace rest)
            | rest => .error (.because "Expecting ',' delimiter" rest.length)
        | rest => .error (.because "Expecting ':' delimiter" rest.length)
    | _ => .error (.because "Expecting property name enclosed in double quotes" cs.length)

end

def faultAt (text : List Char) (reason : String) (left : Nat) : JsonFault :=
  let before := text.take (text.length - left)
  let line := before.reverse.takeWhile (· != '\n')
  ⟨reason, before.count '\n' + 1, line.length + 1, before.length⟩

def readChars (text : List Char) : Except Stop Document :=
  if text.head? = some '\ufeff' then
    .error (.because "Unexpected UTF-8 BOM (decode using utf-8-sig)" text.length)
  else match readValue maxDepth (2 * text.length + 2) (skipSpace text) with
    | .error stop => .error stop
    | .ok (value, rest) =>
      match skipSpace rest with
      | [] => .ok value
      | rest => .error (.because "Extra data" rest.length)

def read (s : String) : Except Failure Document :=
  match readChars s.toList with
  | .ok value => .ok value
  | .error (.because reason left) => .error (.malformed (faultAt s.toList reason left))
  | .error (.tooManyDigits digits) => .error (.tooManyDigits digits)
  | .error (.tooDeep kind) => .error (.tooDeep kind)

end IngressControl.Json
