import IngressControl.Text.Basic
import IngressControl.Text.Pattern

/-!
Marks within texts for terminals: control sequences, which do not show, and hyperlinks, of which
their text alone shows. A mark is looked for at every character that no mark before it covers, and
an escape that begins no complete mark stands for itself.
-/

namespace IngressControl.Text

/-- A mark at the beginning of a text: the number of characters that it has behind its first one,
and what shows in its place. -/
structure Mark where
  behind : Nat
  shown : List Char := []
deriving DecidableEq, Repr

/-- A text with what shows in place of its marks. The first characters may belong to a mark before
them; their number is given. -/
def showMarks (mark? : List Char → Option Mark) : Nat → List Char → List Char
  | _, [] => []
  | covered + 1, _ :: cs => showMarks mark? covered cs
  | 0, c :: cs => match mark? (c :: cs) with
    | some mark => mark.shown ++ showMarks mark? mark.behind cs
    | none => c :: showMarks mark? 0 cs

def hasMark (mark? : List Char → Option Mark) : List Char → Bool
  | [] => false
  | c :: cs => (mark? (c :: cs)).isSome || hasMark mark? cs

def isBetween (low high c : Char) : Bool := decide (low ≤ c) && decide (c ≤ high)

/-- A control sequence: parameters, then intermediates, then one final character. -/
def control? : List Char → Option Mark
  | '\x1b' :: '[' :: cs =>
    let parameters := cs.takeWhile (isBetween '0' '?')
    let rest := cs.dropWhile (isBetween '0' '?')
    let intermediates := rest.takeWhile (isBetween ' ' '/')
    match rest.dropWhile (isBetween ' ' '/') with
    | c :: _ =>
      if isBetween '@' '~' c then some ⟨2 + parameters.length + intermediates.length, []⟩ else none
    | [] => none
  | _ => none

/-- The parameters of a hyperlink: names with values, between which colons may stand. -/
def linkParameters : Pattern :=
  let word := Pattern.some (.one (fun c => c.isAlphanum || c == '_'))
  .many (.all [word, .char '=', word, .optional (.char ':')])

def linkEnd : List Char := "\x1b]8;;\x1b\\".toList

def beforeEscape (cs : List Char) : List Char := cs.takeWhile (· != '\x1b')

/-- A hyperlink: its parameters, its address, its text and its end. -/
def hyperlink? : List Char → Option Mark
  | '\x1b' :: ']' :: '8' :: ';' :: cs =>
    let target := beforeEscape cs
    let parameters := target.takeWhile (· != ';')
    let address := (target.dropWhile (· != ';')).drop 1
    match cs.drop target.length with
    | '\x1b' :: '\\' :: rest =>
      let shown := beforeEscape rest
      if linkParameters.accepts parameters && !address.isEmpty && !shown.isEmpty &&
          linkEnd.isPrefixOf (rest.drop shown.length) then
        some ⟨5 + target.length + shown.length + linkEnd.length, shown⟩
      else none
    | _ => none
  | _ => none

def mark? (cs : List Char) : Option Mark := (control? cs).orElse (fun _ => hyperlink? cs)

def withoutControls (s : String) : String := String.ofList (showMarks control? 0 s.toList)

def visible (cs : List Char) : List Char := showMarks mark? 0 cs

def part? (part shown : List Char) (cs : List Char) : Option Mark :=
  if part.isPrefixOf cs then some ⟨part.length - 1, shown⟩ else none

def replaceAll (part shown cs : List Char) : List Char := showMarks (part? part shown) 0 cs

end IngressControl.Text
