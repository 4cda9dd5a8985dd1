import IngressControl.Cloud.Basic

/-!
The cloud as documents, for reports.
-/

namespace IngressControl

def Call.view (call : Call) : Document :=
  .array [.string call.operation.word, call.target]

namespace Cloud

def view (cloud : Cloud) : Document :=
  .array (cloud.balancers.map (fun (arn, handle) =>
    .object [("load_balancer", handle.view),
      ("targets", ((Ledger.get? arn cloud.targets).map Document.array).getD .null)]))

def settingsView (cloud : Cloud) (name : String) : Document :=
  .array [.string name, cloud.region, cloud.limit, .float cloud.latency]

def callsView (cloud : Cloud) (seen : Nat) : Document :=
  .array ((cloud.calls.drop seen).map Call.view)

end Cloud

end IngressControl
