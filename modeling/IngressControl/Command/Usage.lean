import IngressControl.Command.Basic
import IngressControl.Text.Quoted

/-!
How the tool is used: its commands with their options and arguments, help texts, and the errors of
those who use it in another way.
-/

namespace IngressControl.Command

structure Flag where
  names : List String
  value : Option String := none
  help : String := ""
deriving DecidableEq, Repr

def helpFlag : Flag where
  names := ["--help"]
  help := "Show this message and exit."

def outputFlag : Flag where
  names := ["--output", "-o"]
  value := some ("[" ++ "|".intercalate (Format.all.map Format.word) ++ "]")

def serviceFlag : Flag where
  names := ["--api-url"]
  value := some "TEXT"
  help := "Base URL of the status API"

inductive Verb
  | hostnames
  | state
  | sync
  | validate
deriving DecidableEq, Repr

namespace Verb

def all : List Verb := [hostnames, state, sync, validate]

def name : Verb → String
  | hostnames => "hostnames"
  | state => "state"
  | sync => "sync"
  | validate => "validate"

def ofName? (word : String) : Option Verb := all.find? (fun verb => verb.name == word)

def flags : Verb → List Flag
  | state => [outputFlag]
  | _ => []

def arguments : Verb → List String
  | hostnames => ["NAMESPACE", "NAME"]
  | validate => ["FILENAME"]
  | _ => []

def help : Verb → String
  | hostnames => "Show the hostnames of an ingress's load balancer"
  | state => "Show the committed resource set"
  | sync => "Trigger a sync cycle and wait for it to finish"
  | validate => "Validate the ingresses in a YAML manifest"

end Verb

def tool : String := "cli"

def path (verb : Option Verb) : String :=
  match verb with
  | some verb => tool ++ " " ++ verb.name
  | none => tool

def usage (verb : Option Verb) : String :=
  let parts := match verb with
    | some verb => "[OPTIONS]" :: verb.arguments
    | none => ["[OPTIONS]", "COMMAND", "[ARGS]..."]
  "Usage: " ++ " ".intercalate (path verb :: parts) ++ "\n"

def longNames (flags : List Flag) : List String :=
  (flags.flatMap Flag.names).filter (fun name => name.startsWith "--")

def fill (width : Nat) (s : String) : String :=
  s ++ String.ofList (List.replicate (width - s.length) ' ')

def columns (entries : List (String × String)) : String :=
  let width := (entries.map (fun entry => entry.1.length)).foldl max 0 + 2
  String.join (entries.map (fun (entry, help) =>
    "  " ++ (if help.isEmpty then entry else fill width entry ++ help) ++ "\n"))

def Flag.entry (flag : Flag) : String × String :=
  let isShort (name : String) : Bool := name.length == 2
  let names := flag.names.filter isShort ++ flag.names.filter (fun name => !isShort name)
  (" ".intercalate (", ".intercalate names :: flag.value.toList), flag.help)

def help (verb : Option Verb) : String :=
  let about := match verb with
    | some verb => verb.help
    | none => "albsync CLI - inspect load balancers managed for ingresses"
  let flags := match verb with
    | some verb => verb.flags
    | none => [serviceFlag]
  let commands := match verb with
    | some _ => ""
    | none => "\nCommands:\n" ++ columns (Verb.all.map (fun verb => (verb.name, verb.help)))
  usage verb ++ "\n  " ++ about ++ "\n\nOptions:\n" ++
    columns ((flags ++ [helpFlag]).map Flag.entry) ++ commands

inductive Misuse
  | noSuchOption (name : String) (suggestions : List String)
  | valueMissing (name : String)
  | valueNotTaken (name : String)
  | noSuchFormat (word : String)
  | argumentMissing (name : String)
  | tooManyArguments (extra : List String)
  | noSuchFile (path : String)
  | noSuchCommand (name : String) (suggestions : List String)
  | commandMissing
deriving DecidableEq, Repr

def suggestionText (names : List String) : String :=
  match names.map (fun name => s!"'{name}'") with
  | [] => ""
  | [name] => s!" Did you mean {name}?"
  | names => " (Did you mean one of: " ++ ", ".intercalate names ++ "?)"

namespace Misuse

def message : Misuse → String
  | noSuchOption name suggestions =>
    s!"No such option {Text.quoted name}." ++ suggestionText suggestions
  | valueMissing name => s!"Option {Text.quoted name} requires an argument."
  | valueNotTaken name => s!"Option {Text.quoted name} does not take a value."
  | noSuchFormat word =>
    let names := " / ".intercalate (outputFlag.names.map (fun name => "'" ++ name ++ "'"))
    let words := ", ".intercalate (Format.all.map (fun f => Text.quoted f.word))
    s!"Invalid value for {names}: {Text.quoted word} is not one of {words}."
  | argumentMissing name => s!"Missing argument '{name}'."
  | tooManyArguments extra =>
    let noun := if extra.length == 1 then "argument" else "arguments"
    let list := " ".intercalate extra
    s!"Got unexpected extra {noun} ({list})"
  | noSuchFile path =>
    s!"Invalid value for 'FILENAME': Path {Text.quoted path} does not exist."
  | noSuchCommand name suggestions =>
    s!"No such command {Text.quoted name}." ++ suggestionText suggestions
  | commandMissing => "Missing command."

/-- Whether a misuse is told together with the way to call the tool: all are but those of the value
of an option. -/
def tellsUsage : Misuse → Bool
  | valueMissing _ => false
  | valueNotTaken _ => false
  | _ => true

def outcome (misuse : Misuse) (verb : Option Verb) : Outcome where
  errors :=
    (if misuse.tellsUsage then usage verb ++ s!"Try '{path verb} --help' for help.\n\n" else "") ++
      s!"Error: {misuse.message}\n"
  ending := .ok 2

end Misuse

end IngressControl.Command
