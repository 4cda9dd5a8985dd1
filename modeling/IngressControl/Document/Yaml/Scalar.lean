import IngressControl.Text.Pattern
import IngressControl.Text.Quoted

/-!
How texts are written in YAML: plain where they read back as the same text, between single quotes
where they are printable, and otherwise between double quotes.
-/

namespace IngressControl.Yaml

open Text (Pattern)

inductive Style
  | plain
  | single
  | double
deriving DecidableEq, Repr

def digit : Pattern := Pattern.oneOf "0123456789"

def digitsOrLines : Pattern := .many (Pattern.oneOf "0123456789_")

def sign : Pattern := Pattern.optional (Pattern.oneOf "+-")

def sexagesimal : Pattern :=
  Pattern.some (Pattern.all [Pattern.char ':', Pattern.optional (Pattern.oneOf "012345"), digit])

def wholePattern : Pattern :=
  Pattern.all [sign, Pattern.any [
    Pattern.all [Pattern.word "0b", Pattern.some (Pattern.oneOf "01_")],
    Pattern.all [Pattern.word "0x", Pattern.some (Pattern.oneOf "0123456789abcdefABCDEF_")],
    Pattern.all [Pattern.char '0', Pattern.many (Pattern.oneOf "01234567_")],
    Pattern.all [Pattern.oneOf "123456789", digitsOrLines, Pattern.optional sexagesimal]]]

def decimalPattern : Pattern :=
  let power := Pattern.optional
    (Pattern.all [Pattern.oneOf "eE", Pattern.oneOf "+-", Pattern.some digit])
  Pattern.any [
    Pattern.all [sign, digit, digitsOrLines, Pattern.char '.', digitsOrLines, power],
    Pattern.all [Pattern.char '.', digit, digitsOrLines, power],
    Pattern.all [sign, digit, digitsOrLines, sexagesimal, Pattern.char '.', digitsOrLines],
    Pattern.all [sign, Pattern.any ([".inf", ".Inf", ".INF"].map Pattern.word)],
    Pattern.any ([".nan", ".NaN", ".NAN"].map Pattern.word)]

def momentPattern : Pattern :=
  let twoDigits := Pattern.all [digit, digit]
  let oneOrTwo := Pattern.all [digit, Pattern.optional digit]
  let year := Pattern.all [twoDigits, twoDigits]
  let dash := Pattern.char '-'
  let colon := Pattern.char ':'
  let blanks := Pattern.oneOf " \t"
  let offset := Pattern.all [Pattern.oneOf "+-", oneOrTwo,
    Pattern.optional (Pattern.all [colon, twoDigits])]
  Pattern.any [
    Pattern.all [year, dash, twoDigits, dash, twoDigits],
    Pattern.all [year, dash, oneOrTwo, dash, oneOrTwo,
      Pattern.any [Pattern.oneOf "Tt", Pattern.some blanks],
      oneOrTwo, colon, twoDigits, colon, twoDigits,
      Pattern.optional (Pattern.all [Pattern.char '.', Pattern.many digit]),
      Pattern.optional (Pattern.all [Pattern.many blanks, Pattern.any [Pattern.char 'Z', offset]])]]

def reserved : List String :=
  ["", "~", "null", "Null", "NULL", "yes", "Yes", "YES", "no", "No", "NO", "true", "True", "TRUE",
    "false", "False", "FALSE", "on", "On", "ON", "off", "Off", "OFF", "<<", "="]

def readsAsText (s : String) : Bool :=
  !(reserved.contains s || wholePattern.accepts s.toList || decimalPattern.accepts s.toList ||
    momentPattern.accepts s.toList)

def isBreak (c : Char) : Bool := c == '\n' || c == '\x85' || c == '\u2028' || c == '\u2029'

def isSeparator (c : Char) : Bool :=
  c == ' ' || c == '\t' || c == '\r' || c == '\x00' || isBreak c

def endsOrSeparates : List Char → Bool
  | [] => true
  | c :: _ => isSeparator c

def beginsSpecial : List Char → Bool
  | [] => false
  | c :: rest =>
    ['-', '-', '-'].isPrefixOf (c :: rest) || ['.', '.', '.'].isPrefixOf (c :: rest) ||
      "#,[]\x7b\x7d&*!|>'\"%@`".toList.contains c ||
      ("?:-".toList.contains c && endsOrSeparates rest)

/-- Whether a colon in front of a separator or a number sign behind one stands in a text. -/
def holdsIndicator : List Char → Bool
  | [] => false
  | [c] => c == ':'
  | c :: d :: rest =>
    (c == ':' && isSeparator d) || (isSeparator c && d == '#') || holdsIndicator (d :: rest)

def holdsBreakBesideSpace : List Char → Bool
  | c :: d :: rest =>
    (c == ' ' && isBreak d) || (isBreak c && d == ' ') || holdsBreakBesideSpace (d :: rest)
  | _ => false

def isPlainChar (c : Char) : Bool := 0x20 ≤ c.toNat && c.toNat ≤ 0x7e

def allowsPlain (cs : List Char) : Bool :=
  cs.all isPlainChar && cs.head? != some ' ' && cs.getLast? != some ' ' &&
    !beginsSpecial cs && !holdsIndicator cs

def allowsSingle (cs : List Char) : Bool :=
  cs.all (fun c => isPlainChar c || c == '\n') && !holdsBreakBesideSpace cs

def styleOf (s : String) : Style :=
  if readsAsText s && allowsPlain s.toList then .plain
  else if allowsSingle s.toList then .single
  else .double

def maxKey : Nat := 122

def isSimpleKey (s : String) : Bool :=
  s.length ≤ maxKey && !s.isEmpty && !s.toList.any isBreak

end IngressControl.Yaml
