import IngressControl.Controller
import IngressControl.Folder
import IngressControl.Registry
import IngressControl.Text.Capital

/-! The daemon: it reads its settings, makes the client, recovers the resources behind the load
balancers that exist, and then runs its cycles beside the status service. -/

namespace IngressControl.Daemon

inductive Refusal
  | settings (fault : Fault)
  | recovery (fault : Fault)
  | unhandled (fault : Fault)
deriving Repr

def ofFault (fault : Fault) : Refusal :=
  if fault.isSettings then .settings fault else .unhandled fault

def ofClientFault (fault : Fault) : Refusal :=
  if fault.isValue then .settings (.client fault) else .unhandled fault

def logLevels : List String :=
  ["CRITICAL", "FATAL", "ERROR", "WARN", "WARNING", "INFO", "DEBUG", "NOTSET"]

def checkLogLevel (level : String) : Except Fault Unit :=
  if logLevels.contains (Text.capitals level) then .ok ()
  else .error (.logLevel (Text.capitals level))

def readSettings (env : Environment) : Except Refusal Settings :=
  match Settings.load env with
  | .error fault => .error (ofFault fault)
  | .ok settings => match checkLogLevel settings.logLevel with
    | .error fault => .error (.unhandled fault)
    | .ok () => .ok settings

def makeClient (env : Environment) (found : List Found) (settings : Settings) :
    Except Refusal Cloud :=
  match Registry.build env found with
  | .error fault => .error (.unhandled fault)
  | .ok registry => match registry.create settings.client settings.clientSettings with
    | .error fault => .error (ofClientFault fault)
    | .ok cloud => .ok cloud

def context (settings : Settings) : Context where
  clusterName := settings.clusterName
  ingressClass := settings.ingressClass
  maxConcurrent := settings.maxConcurrent
  maxTargets := settings.maxTargets

def start (env : Environment) (found : List Found) (folder : Folder) (now : Moment)
    (settings : Settings) : Except Refusal Controller := do
  let cloud ← makeClient env found settings
  match Engine.start (context settings) [] with
  | .error fault => throw (ofFault fault)
  | .ok engine =>
    let c : Controller := {
      engine := engine
      cloud := cloud
      sources := Sources.ofManifest (folder.read (Path.normalize settings.declarationsFile))
      now := now }
    match c.bootstrap with
    | (.error fault, _) => throw (.recovery fault)
    | (.ok (), c) => return c

structure Run where
  critical : List String := []
  errors : List String := []
  ending : Except Fault Nat
  served : Option (Settings × Controller) := none

def refused : Refusal → Run
  | .settings fault =>
    { critical := ["Invalid configuration: " ++ fault.message], ending := .ok 1 }
  | .recovery fault =>
    { critical := ["failed to reconstruct state from existing external resources: " ++
        fault.message], ending := .ok 1 }
  | .unhandled fault => { ending := .error fault }

/-- The end of a daemon that is stopped while it waits for its next cycle. If it has to wait at all,
it has to be able to wait for that long. -/
def endingOf (settings : Settings) : Except Fault Nat :=
  if settings.syncInterval ≤ 0 then .ok 0
  else (Document.int settings.syncInterval).toDecimal.map (fun _ => 0)

def runOnce (env : Environment) (found : List Found) (folder : Folder) (now : Moment) : Run :=
  match readSettings env with
  | .error refusal => refused refusal
  | .ok settings => match start env found folder now settings with
    | .error refusal => refused refusal
    | .ok c => match c.sync with
      | (.ok (), c) => { ending := endingOf settings, served := some (settings, c) }
      | (.error fault, c) =>
        { errors := ["Sync failed, keeping previous state: " ++ fault.message]
          ending := endingOf settings
          served := some (settings, c) }

end IngressControl.Daemon
