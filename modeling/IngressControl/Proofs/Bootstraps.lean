import IngressControl.Proofs.Deletions
import IngressControl.Proofs.Readers

/-! Bootstraps are all or nothing. An engine adopts what an assembly makes of all load balancers of
its cluster, or stays as it was; the assembly asks for the targets of each of them once, whatever
happens to the others. -/

namespace IngressControl

theorem Cloud.describe_calls (cloud : Cloud) (arn : Document) :
    (cloud.describe arn).2.calls = cloud.calls ++ [⟨.describe, arn⟩] :=
  cloud.perform_calls .describe arn fun _ => rfl

theorem Cloud.list_calls (cloud : Cloud) (cluster : String) :
    (cloud.list cluster).2.calls = cloud.calls ++ [⟨.list, .string cluster⟩] :=
  cloud.perform_calls .list (.string cluster) fun _ => rfl

namespace Discovery

inductive ReadInTurn : Cloud → List Reading → Cloud → Prop
  | nil {cloud : Cloud} : ReadInTurn cloud [] cloud
  | refused {cloud cloud' : Cloud} {x : Reading} {rest : List Reading} {fault : Fault}
      (h : x.arn = .error fault) (others : ReadInTurn cloud rest cloud') :
      ReadInTurn cloud (x :: rest) cloud'
  | asked {cloud between cloud' : Cloud} {x : Reading} {rest : List Reading} {arn : Document}
      (h : x.arn = .ok arn) (answered : cloud.describe arn = (x.answer, between))
      (others : ReadInTurn between rest cloud') : ReadInTurn cloud (x :: rest) cloud'

section Serial

variable {cloud cloud' : Cloud} {readings : List Reading}

theorem exists_readInTurn (cloud : Cloud) (descriptions : List Document) :
    ∃ readings cloud', readings.map Reading.description = descriptions ∧
      ReadInTurn cloud readings cloud' := by
  induction descriptions generalizing cloud with
  | nil => exact ⟨[], cloud, rfl, .nil⟩
  | cons description rest ih =>
    cases harn : description.require "LoadBalancerArn" with
    | error fault =>
      obtain ⟨readings, cloud', hmap, hread⟩ := ih cloud
      refine ⟨⟨description, .ok []⟩ :: readings, cloud', ?_, .refused harn hread⟩
      rw [List.map_cons, hmap]
    | ok arn =>
      obtain ⟨readings, cloud', hmap, hread⟩ := ih (cloud.describe arn).2
      refine ⟨⟨description, (cloud.describe arn).1⟩ :: readings, cloud', ?_,
        .asked harn rfl hread⟩
      rw [List.map_cons, hmap]

/-- The outcomes of an assembly are those of its readings. -/
theorem ReadInTurn.assembleAll_eq (h : ReadInTurn cloud readings cloud') :
    assembleAll cloud (readings.map Reading.description) =
      (readings.map Reading.outcome, cloud') := by
  induction h with
  | nil => rfl
  | @refused cloud cloud' x rest fault harn _ ih =>
    have hone : assembleOne cloud x.description = (.error fault, cloud) := by
      unfold assembleOne
      rw [show x.description.require "LoadBalancerArn" = .error fault from harn]
    have houtcome : x.outcome = .error fault := by rw [Reading.outcome, harn]; rfl
    simp only [List.map_cons, assembleAll, hone, ih, houtcome]
  | @asked cloud between cloud' x rest arn harn hd _ ih =>
    have hone : assembleOne cloud x.description = (x.outcome, between) := by
      unfold assembleOne
      rw [show x.description.require "LoadBalancerArn" = .ok arn from harn, Reading.outcome, harn]
      simp only [hd]
      rfl
    simp only [List.map_cons, assembleAll, hone, ih]

theorem ReadInTurn.calls_eq (h : ReadInTurn cloud readings cloud') :
    cloud'.calls = cloud.calls ++ readings.flatMap Reading.calls := by
  induction h with
  | nil => rw [List.flatMap_nil, List.append_nil]
  | @refused cloud cloud' x rest fault harn _ ih =>
    have hcalls : x.calls = [] := by rw [Reading.calls, harn]
    rw [ih, List.flatMap_cons, hcalls, List.nil_append]
  | @asked cloud between cloud' x rest arn harn hd _ ih =>
    have hcalls : x.calls = [⟨.describe, arn⟩] := by rw [Reading.calls, harn]
    have hbetween : between.calls = cloud.calls ++ [⟨.describe, arn⟩] := by
      rw [← cloud.describe_calls arn, hd]
    rw [ih, hbetween, List.flatMap_cons, hcalls, List.append_assoc]

inductive Reads (cloud : Cloud) (cluster : String) : Except Fault (List Reading) → Prop
  | unlisted {fault : Fault} {cloud' : Cloud}
      (h : cloud.list cluster = (.error fault, cloud'))
      (outcome : assemble cloud cluster = (assembled (.error fault), cloud'))
      (calls : cloud'.calls = cloud.calls ++ [⟨.list, .string cluster⟩]) :
      Reads cloud cluster (.error fault)
  | listed {readings : List Reading} {between cloud' : Cloud}
      (h : cloud.list cluster = (.ok (readings.map Reading.description), between))
      (inTurn : ReadInTurn between readings cloud')
      (outcome : assemble cloud cluster = (assembled (.ok readings), cloud'))
      (calls : cloud'.calls =
        cloud.calls ++ ⟨.list, .string cluster⟩ :: readings.flatMap Reading.calls) :
      Reads cloud cluster (.ok readings)

/-- An assembly on a cloud is one of what the cloud lists and answers. -/
theorem exists_reads (cloud : Cloud) (cluster : String) :
    ∃ listed, Reads cloud cluster listed := by
  have hcalls := cloud.list_calls cluster
  cases hlist : cloud.list cluster with
  | mk outcome between =>
    rw [hlist] at hcalls
    cases outcome with
    | error fault =>
      refine ⟨.error fault, .unlisted hlist ?_ hcalls⟩
      unfold assemble
      rw [hlist]
      rfl
    | ok descriptions =>
      obtain ⟨readings, cloud', rfl, hread⟩ := exists_readInTurn between descriptions
      refine ⟨.ok readings, .listed hlist hread ?_ ?_⟩
      · unfold assemble
        rw [hlist]
        simp only [hread.assembleAll_eq]
        rfl
      · rw [hread.calls_eq, hcalls, List.append_assoc]
        rfl

/-- Assembly depends on the readings only. -/
theorem Reads.outcome_eq {cluster : String} {listed : Except Fault (List Reading)}
    (h : Reads cloud cluster listed) : (assemble cloud cluster).1 = assembled listed := by
  cases h with
  | unlisted _ houtcome _ => rw [houtcome]
  | listed _ _ houtcome _ => rw [houtcome]

end Serial

/-- An assembly succeeds exactly if the load balancers can be listed and all of them make resources
of different owners, and it fails with a fault of its own. -/
structure Decides (listed : Except Fault (List Reading)) : Prop where
  succeeds : ∀ found, assembled listed = .ok found ↔
    ∃ readings, listed = .ok readings ∧ List.Forall₂ Reading.Makes readings found ∧ found.Distinct
  fails : ∀ fault, assembled listed = .error fault → fault.isBootstrap = true

/-- The readings decide the outcome. -/
theorem decides (listed : Except Fault (List Reading)) : Decides listed where
  succeeds found := by
    cases listed with
    | error fault =>
      constructor
      · intro h
        cases h
      · rintro ⟨readings, h, -⟩
        cases h
    | ok readings =>
      constructor
      · intro h
        exact ⟨readings, rfl, conclude_eq_ok_iff.mp h⟩
      · rintro ⟨readings', h, hmakes⟩
        obtain rfl := Except.ok.inj h
        exact conclude_eq_ok_iff.mpr hmakes
  fails _ := isBootstrap_of_assembled

end Discovery

namespace Engine

/-- What a bootstrap of an engine without resources makes of an assembly: the engine adopts a set,
and a fault leaves it as it was. -/
inductive Bootstrapped (engine : Engine) : Except Fault ResourceSet → Cycle → Prop
  | failed {fault : Fault} {c : Cycle} (outcome : c.outcome = .error fault)
      (kept : c.engine = engine) : Bootstrapped engine (.error fault) c
  | succeeded {found : ResourceSet} {c : Cycle} (outcome : c.outcome = .ok ())
      (adopted : c.engine = { engine with
        resources := found
        stats := { engine.stats with managedResources := found.length } }) :
      Bootstrapped engine (.ok found) c

section Bootstrap

variable {engine : Engine} {cloud : Cloud} {fault : Fault}

theorem bootstrapped (h : engine.resources = []) (cloud : Cloud) :
    Bootstrapped engine (Discovery.assemble cloud engine.context.clusterName).1
      (engine.bootstrap cloud) := by
  unfold bootstrap
  rw [if_neg (by simp [h])]
  cases Discovery.assemble cloud engine.context.clusterName with
  | mk outcome cloud' =>
    cases outcome with
    | error fault => exact .failed rfl rfl
    | ok found => exact .succeeded rfl rfl

/-- A bootstrap that fails leaves the engine as it was. -/
theorem Bootstrapped.kept_of_error {outcome : Except Fault ResourceSet} {c : Cycle}
    (hb : Bootstrapped engine outcome c) (h : c.outcome = .error fault) :
    c.engine = engine ∧ outcome = .error fault := by
  cases hb with
  | failed houtcome hkept =>
    obtain rfl := Except.error.inj (houtcome.symm.trans h)
    exact ⟨hkept, rfl⟩
  | succeeded houtcome _ => cases houtcome.symm.trans h

/-- A bootstrap that fails leaves the engine as it was, and the fault is one of the assembly. -/
theorem bootstrap_of_error (h : (engine.bootstrap cloud).outcome = .error fault) :
    (engine.bootstrap cloud).engine = engine ∧ fault.isBootstrap = true := by
  by_cases hempty : engine.resources = []
  · obtain ⟨listed, hreads⟩ := Discovery.exists_reads cloud engine.context.clusterName
    obtain ⟨hkept, hfault⟩ := (bootstrapped hempty cloud).kept_of_error h
    rw [hreads.outcome_eq] at hfault
    exact ⟨hkept, Discovery.isBootstrap_of_assembled hfault⟩
  · -- an engine that has resources is not bootstrapped
    unfold bootstrap at h
    rw [if_pos (by simpa using hempty)] at h
    cases h

end Bootstrap

end Engine

namespace Shop

/-- A load balancer that is tagged for the ingress. -/
def described : Document :=
  .object [("LoadBalancerArn", .string "web"), ("LoadBalancerName", .string "web"),
    ("Tags", .array [
      .object [("Key", .string namespaceTag), ("Value", .string "default")],
      .object [("Key", .string ingressTag), ("Value", .string "web")]])]

/-- A cloud that lists that load balancer between two descriptions that cannot be read. -/
def halfListed : Cloud where
  listing := some [.object [], described, .int 3]
  targets := [("web", [.string "i-1"])]

end Shop

end IngressControl
