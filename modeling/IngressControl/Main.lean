import IngressControl.Command.Run
import Std.Time

/-!
The tool as a program. It runs a daemon within its own process, on a manifest written in the part of
YAML that is JSON, and puts its requests to that.
-/

namespace IngressControl.Main

def variableNames : List String :=
  ["CLUSTER_NAME", "INGRESS_CLASS", "SYNC_INTERVAL", "MAX_CONCURRENT_RECONCILES",
    "MAX_TARGETS_PER_CALL", "API_HOST", "API_PORT", "LOG_LEVEL", "LB_CLIENT_CONFIG",
    "DECLARATIONS_FILE", "LB_CLIENT", "AWS_REGION"]

def environment : IO Environment := do
  let mut env : Environment := []
  for name in variableNames do
    if let some value ← IO.getEnv name then
      env := env ++ [(name, value)]
  return env

/-- The documents of a text: those of a list, or the one that it holds. -/
def documentsOf (text : String) : List Document :=
  match Json.read text with
  | .ok (.array documents) => documents
  | .ok document => [document]
  | .error _ => [.string text]

def readFolder (paths : List String) : IO Folder := do
  let mut folder : Folder := []
  for path in paths do
    try
      folder := folder ++ [(Path.normalize path, documentsOf (← IO.FS.readFile path))]
    catch _ => pure ()
  return folder

def currentMoment : IO Moment := do
  let t := Std.Time.DateTime.ofTimestamp (← Std.Time.Timestamp.now)
    Std.Time.TimeZone.ZoneRules.UTC
  return {
    year := t.year.toInt.toNat
    month := t.month.val.toNat
    day := t.day.val.toNat
    hour := t.hour.val.toNat
    minute := t.minute.val.toNat
    second := t.second.val.toNat
    microsecond := t.nanosecond.val.toNat / 1000 }

def runTool (words : List String) : IO UInt32 := do
  let env ← environment
  let folder ← readFolder (env.text "DECLARATIONS_FILE" "declarations.yaml" :: words)
  let daemon := Daemon.runOnce env [] folder (← currentMoment)
  let service := (← IO.getEnv "ALBSYNC_API_URL").getD Command.defaultService
  let (_, outcome) := Command.run folder service words (Command.Local.answer daemon)
  IO.print outcome.output
  IO.eprint outcome.errors
  match outcome.ending with
  | .ok code => return code.toUInt32
  | .error fault =>
    IO.eprintln fault.message
    return 1

end IngressControl.Main

def main (words : List String) : IO UInt32 := IngressControl.Main.runTool words
