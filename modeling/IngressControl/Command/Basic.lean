import IngressControl.Fault
import IngressControl.Text.Mark

/-!
The commands of the tool, and what a run of the tool leaves behind.
-/

namespace IngressControl.Command

inductive Format
  | table
  | json
  | yaml
deriving DecidableEq, Repr

namespace Format

def word : Format → String
  | table => "table"
  | json => "json"
  | yaml => "yaml"

def all : List Format := [table, json, yaml]

def ofWord? (word : String) : Option Format := all.find? (fun f => f.word == word)

end Format

inductive Action
  | state (format : Format)
  | hostnames (ns name : String)
  | sync
  | validate (file : String)
deriving DecidableEq, Repr

structure Invocation where
  service : String
  action : Action
deriving DecidableEq, Repr

structure Outcome where
  output : String := ""
  errors : String := ""
  ending : Except Fault Nat := .ok 0
deriving Repr

/-- An outcome as it is written to a file: without control sequences. -/
def Outcome.plain (outcome : Outcome) : Outcome :=
  { outcome with
    output := Text.withoutControls outcome.output
    errors := Text.withoutControls outcome.errors }

structure Request where
  method : String
  url : String
deriving DecidableEq, Repr

def Request.timeout : Nat := 60

inductive Answer
  | unreachable (reason : String)
  | answered (status : Int) (reason body : String)
deriving DecidableEq, Repr

end IngressControl.Command
