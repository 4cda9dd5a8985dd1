import IngressControl.Ledger
import IngressControl.Text.Basic

/-! Request targets: a path, and after a question mark a query, both percent-encoded. The bytes that
a text encodes are read as UTF-8; what is no character is read as the replacement character. -/

namespace IngressControl.Text.Percent

/-- A character of which some bytes are still missing: how many, the bounds of the next one, and the
bits so far. -/
structure Incomplete where
  missing : Nat
  low : Nat
  high : Nat
  bits : Nat
deriving DecidableEq, Repr

structure Reading where
  done : List Char := []
  pending : Option Incomplete := none
deriving Repr

def lead? (b : Nat) : Option Incomplete :=
  if 0xc2 ≤ b ∧ b ≤ 0xdf then some ⟨1, 0x80, 0xbf, b % 0x20⟩
  else if b = 0xe0 then some ⟨2, 0xa0, 0xbf, 0⟩
  else if b = 0xed then some ⟨2, 0x80, 0x9f, 0xd⟩
  else if 0xe1 ≤ b ∧ b ≤ 0xef then some ⟨2, 0x80, 0xbf, b % 0x10⟩
  else if b = 0xf0 then some ⟨3, 0x90, 0xbf, 0⟩
  else if 0xf1 ≤ b ∧ b ≤ 0xf3 then some ⟨3, 0x80, 0xbf, b % 8⟩
  else if b = 0xf4 then some ⟨3, 0x80, 0x8f, 4⟩
  else none

namespace Reading

def first (done : List Char) (b : Nat) : Reading :=
  if b < 0x80 then { done := Char.ofNat b :: done }
  else match lead? b with
    | some pending => { done := done, pending := some pending }
    | none => { done := '\ufffd' :: done }

def flush (r : Reading) : List Char :=
  match r.pending with
  | some _ => '\ufffd' :: r.done
  | none => r.done

def push (r : Reading) (b : Nat) : Reading :=
  match r.pending with
  | none => first r.done b
  | some p =>
    if p.low ≤ b ∧ b ≤ p.high then
      let bits := p.bits * 0x40 + b % 0x40
      if p.missing ≤ 1 then { done := Char.ofNat bits :: r.done }
      else { r with pending := some ⟨p.missing - 1, 0x80, 0xbf, bits⟩ }
    else first r.flush b

/-- Reads a character: an ASCII one as its byte, all others as they are. -/
def pushChar (r : Reading) (c : Char) : Reading :=
  if c.toNat < 0x80 then r.push c.toNat else { done := c :: r.flush }

end Reading

def byte? (a b : Char) : Option Nat := do
  return 16 * (← hexValue? a) + (← hexValue? b)

/-- Reads a text; a percent sign without two hexadecimal digits stands for itself. -/
def readFrom : Reading → List Char → Reading
  | r, [] => r
  | r, [c] => r.pushChar c
  | r, [c, d] => (r.pushChar c).pushChar d
  | r, c :: a :: b :: rest =>
    match byte? a b with
    | some byte => if c = '%' then readFrom (r.push byte) rest
        else readFrom (r.pushChar c) (a :: b :: rest)
    | none => readFrom (r.pushChar c) (a :: b :: rest)

def decode (cs : List Char) : List Char := (readFrom {} cs).flush.reverse

end IngressControl.Text.Percent

namespace IngressControl.Api

structure Target where
  path : String
  query : List (String × String) := []
deriving DecidableEq, Repr

namespace Target

def decodeQuery (cs : List Char) : String :=
  String.ofList (Text.Percent.decode (cs.map (fun c => if c = '+' then ' ' else c)))

/-- The name and the value of a parameter; without an equals sign the value is empty. -/
def parameter (cs : List Char) : String × String :=
  (decodeQuery (cs.takeWhile (· != '=')), decodeQuery ((cs.dropWhile (· != '=')).drop 1))

def ofText (s : String) : Target :=
  let query := (s.toList.dropWhile (· != '?')).drop 1
  { path := String.ofList (Text.Percent.decode (s.toList.takeWhile (· != '?')))
    query := ((Text.pieces '&' query).filter (fun cs => !cs.isEmpty)).map parameter }

def value? (target : Target) (name : String) : Option String :=
  Ledger.get? name target.query.reverse

end Target

end IngressControl.Api
