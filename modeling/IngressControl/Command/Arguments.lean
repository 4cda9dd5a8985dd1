import IngressControl.Command.Suggestion
import IngressControl.Command.Usage

/-!
Reading the command line. Options stand anywhere behind their command; a double hyphen ends them.
-/

namespace IngressControl.Command

/-- What is read from some words: the values of the options in their order, whether help is asked
for, and all other words. -/
structure Reading where
  values : List (Flag × String) := []
  wantsHelp : Bool := false
  rest : List String := []
deriving Repr

def flagOf? (flags : List Flag) (name : String) : Option Flag :=
  flags.find? (fun flag => flag.names.contains name)

def longFlag? (flags : List Flag) (name : String) : Option Flag :=
  if name.startsWith "--" then flagOf? flags name else none

/-- A word that is an option: the option, its name as it was written, and the value that was
written together with it. Behind a long name that is an equals sign and the value; a short name is
one hyphen and one character, and the rest of the word is its value. -/
def readFlag (flags : List Flag) (word : String) :
    Except Misuse (Flag × String × Option String) :=
  let name := String.ofList (word.toList.takeWhile (· != '='))
  let attached := String.ofList ((word.toList.dropWhile (· != '=')).drop 1)
  match longFlag? flags name with
  | some flag => .ok (flag, name, if word.toList.contains '=' then some attached else none)
  | none =>
    if word.startsWith "--" then
      .error (.noSuchOption name (suggestions name (longNames flags)))
    else
      let short := String.ofList (word.toList.take 2)
      match flagOf? flags short with
      | some flag => .ok (flag, short,
          if 2 < word.length then some (String.ofList (word.toList.drop 2)) else none)
      | none => .error (.noSuchOption short [])

def Reading.note (flag : Flag) (value : String) (r : Reading) : Reading :=
  if flag == helpFlag then { r with wantsHelp := true }
  else { r with values := (flag, value) :: r.values }

/-- Whether a word is read as an option: a hyphen alone is not. -/
def isFlag (word : String) : Bool := word.startsWith "-" && decide (1 < word.length)

/-- Reads words; unless other words may stand between options, the first one ends them. -/
def readWords (flags : List Flag) (mixed : Bool) : List String → Except Misuse Reading
  | [] => .ok {}
  | word :: rest =>
    if word == "--" then .ok { rest := rest }
    else if isFlag word then
      match readFlag flags word with
      | .error misuse => .error misuse
      | .ok (flag, name, attached) =>
        match flag.value, attached with
        | none, none => (readWords flags mixed rest).map (Reading.note flag "")
        | none, some _ => .error (.valueNotTaken name)
        | some _, some value => (readWords flags mixed rest).map (Reading.note flag value)
        | some _, none => match rest with
          | value :: rest => (readWords flags mixed rest).map (Reading.note flag value)
          | [] => .error (.valueMissing name)
    else if mixed then
      (readWords flags mixed rest).map (fun r => { r with rest := word :: r.rest })
    else .ok { rest := word :: rest }

def Reading.value? (r : Reading) (flag : Flag) : Option String := r.values.reverse.lookup flag

/-- The arguments of a command, of which there have to be neither too few nor too many. -/
def takeArguments : List String → List String → Except Misuse (List String)
  | [], [] => .ok []
  | [], extra => .error (.tooManyArguments extra)
  | name :: _, [] => .error (.argumentMissing name)
  | _ :: names, word :: words => (takeArguments names words).map (word :: ·)

def formatOf (r : Reading) : Except Misuse Format :=
  match r.value? outputFlag with
  | none => .ok .table
  | some word => match Format.ofWord? word with
    | some format => .ok format
    | none => .error (.noSuchFormat word)

def helpOutcome (verb : Option Verb) : Outcome := { output := help verb }

def orMisuse {α : Type} (verb : Option Verb) (read : Except Misuse α) : Except Outcome α :=
  read.mapError (fun misuse => misuse.outcome verb)

def checkFile (isThere : String → Except Fault Bool) (verb : Option Verb) :
    List String → Except Outcome Unit
  | [] => .ok ()
  | file :: _ => match isThere file with
    | .ok true => .ok ()
    | .ok false => orMisuse verb (.error (.noSuchFile file))
    | .error fault => .error { ending := .error fault }

def actionOf (isThere : String → Except Fault Bool) (verb : Verb) (r : Reading) :
    Except Outcome Action := do
  let takeAll := orMisuse (some verb) (takeArguments verb.arguments r.rest)
  match verb with
  | .hostnames =>
    let words ← takeAll
    return .hostnames (words[0]?.getD "") (words[1]?.getD "")
  | .state =>
    let format ← orMisuse (some verb) (formatOf r)
    let _ ← takeAll
    return .state format
  | .sync =>
    let _ ← takeAll
    return .sync
  | .validate =>
    checkFile isThere (some verb) r.rest
    let words ← takeAll
    return .validate (words[0]?.getD "")

/-- Reads words; a request for help is an outcome of its own. -/
def readOptions (verb : Option Verb) (flags : List Flag) (words : List String) :
    Except Outcome Reading := do
  let r ← orMisuse verb (readWords flags verb.isSome words)
  if r.wantsHelp then
    throw (helpOutcome verb)
  return r

def readVerb (isThere : String → Except Fault Bool) (service : String) (verb : Verb)
    (words : List String) : Except Outcome Invocation := do
  let r ← readOptions (some verb) (helpFlag :: verb.flags) words
  return ⟨service, ← actionOf isThere verb r⟩

def readTool (words : List String) : Except Outcome Reading :=
  readOptions none [helpFlag, serviceFlag] words

/-- Reads a command line. A word that stands in place of a command and is none is read as an option
if it looks like one. -/
def read (isThere : String → Except Fault Bool) (service : String) (words : List String) :
    Except Outcome Invocation := do
  if words.isEmpty then throw { errors := help none, ending := .ok 2 }
  let r ← readTool words
  match r.rest with
  | [] => throw (Misuse.outcome .commandMissing none)
  | name :: words => match Verb.ofName? name with
    | some verb => readVerb isThere ((r.value? serviceFlag).getD service) verb words
    | none =>
      if isFlag name then
        let _ ← readTool (name :: words)
      let names := suggestions name (Verb.all.map Verb.name)
      throw (Misuse.outcome (.noSuchCommand name names) none)

end IngressControl.Command
