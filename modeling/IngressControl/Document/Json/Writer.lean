import IngressControl.Document.Basic
import IngressControl.Numeral.Shortest

/-!
Writing JSON in ASCII, on one line or with one item a line.
-/

namespace IngressControl.Json

def codeUnits (c : Char) : List Nat :=
  if c.toNat < 0x10000 then [c.toNat]
  else [0xd800 + (c.toNat - 0x10000) / 0x400, 0xdc00 + (c.toNat - 0x10000) % 0x400]

def escape (c : Char) : List Char :=
  if c = '"' then ['\\', '"']
  else if c = '\\' then ['\\', '\\']
  else if c = '\n' then ['\\', 'n']
  else if c = '\r' then ['\\', 'r']
  else if c = '\t' then ['\\', 't']
  else if c = '\x08' then ['\\', 'b']
  else if c = '\x0c' then ['\\', 'f']
  else if 0x20 ≤ c.toNat ∧ c.toNat < 0x7f then [c]
  else (codeUnits c).flatMap (fun unit => '\\' :: 'u' :: Text.hexDigits 4 unit)

def writeText (s : String) : String :=
  String.ofList ('"' :: (s.toList.flatMap escape ++ ['"']))

def writeDouble (x : Numeral.Double) : String :=
  if x.isFinite then x.render
  else if x.isUndefined then "NaN"
  else if x.negative then "-Infinity"
  else "Infinity"

/-- A bracketed list: on one line, or with each part on a line of its own, indented one step more
than the closing bracket. -/
def bracketed (indent : Option Nat) (depth : Nat) (opening closing : String)
    (parts : List String) : String :=
  if parts.isEmpty then opening ++ closing
  else match indent with
    | none => opening ++ ", ".intercalate parts ++ closing
    | some step =>
      let line (depth : Nat) : String := "\n" ++ String.ofList (List.replicate (depth * step) ' ')
      opening ++ line (depth + 1) ++ ("," ++ line (depth + 1)).intercalate parts ++ line depth ++
        closing

mutual

def writeAt (indent : Option Nat) (depth : Nat) : Document → String
  | .null => "null"
  | .bool true => "true"
  | .bool false => "false"
  | .int n => toString n
  | .float x => writeDouble x
  | .string s => writeText s
  | .array items => bracketed indent depth "[" "]" (writeItems indent (depth + 1) items)
  | .object fields =>
    bracketed indent depth "\x7b" "\x7d" (writeFields indent (depth + 1) fields)

def writeItems (indent : Option Nat) (depth : Nat) : List Document → List String
  | [] => []
  | d :: rest => writeAt indent depth d :: writeItems indent depth rest

def writeFields (indent : Option Nat) (depth : Nat) : List (String × Document) → List String
  | [] => []
  | (key, d) :: rest =>
    (writeText key ++ ": " ++ writeAt indent depth d) :: writeFields indent depth rest

end

def write (d : Document) : String := writeAt none 0 d

def writeIndented (step : Nat) (d : Document) : String := writeAt (some step) 0 d

end IngressControl.Json
