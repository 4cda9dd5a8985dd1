import IngressControl.Proofs.Deletions

/-! The calls of a cycle one by one. What the engine does for a resource is a program: it makes a
call, and what it does next depends on the answer only. Running the program on a cloud is what
reconciling the resource does, and shows each call with the cloud as it is when the call is made.
-/

namespace IngressControl

inductive Request
  | create (name : String) (attributes : Cloud.Attributes) (tags : List (String × Document))
  | update (h : Handle) (attributes : Cloud.Attributes)
  | delete (h : Handle)
  | register (h : Handle) (instances : List Document)
  | deregister (h : Handle) (instances : List Document)

namespace Request

def call : Request → Call
  | create name _ _ => ⟨.create, .string name⟩
  | update h _ => ⟨.update, h.name⟩
  | delete h => ⟨.delete, h.name⟩
  | register h _ => ⟨.register, h.name⟩
  | deregister h _ => ⟨.deregister, h.name⟩

/-- A reply that only says that the call succeeded, given for a load balancer. -/
def acknowledge (h : Handle) (reply : Reply Unit) : Reply Handle :=
  (reply.1.map fun _ => h, reply.2)

def isCreate : Request → Bool
  | create _ _ _ => true
  | _ => false

def answer (cloud : Cloud) : Request → Reply Handle
  | create name attributes tags => cloud.create name attributes tags
  | update h attributes => cloud.update h attributes
  | delete h => acknowledge h (cloud.delete h)
  | register h instances => acknowledge h (cloud.register h instances)
  | deregister h instances => acknowledge h (cloud.deregister h instances)

/-- Every request is one call of the log. -/
@[simp] theorem answer_calls (cloud : Cloud) (request : Request) :
    (request.answer cloud).2.calls = cloud.calls ++ [request.call] := by
  cases request with
  | create name attributes tags => exact cloud.create_calls name attributes tags
  | update h attributes => exact cloud.update_calls h attributes
  | delete h => exact cloud.delete_calls h
  | register h instances => exact cloud.register_calls h instances
  | deregister h instances => exact cloud.deregister_calls h instances

end Request

/-- A course of calls: it is over with a result, or makes a call and goes on from the answer. -/
inductive Program (α : Type)
  | done (result : α)
  | ask (request : Request) (next : Except Fault Handle → Program α)

namespace Program

variable {α β : Type}

def bind : Program α → (α → Program β) → Program β
  | done result, f => f result
  | ask request next, f => ask request fun answer => (next answer).bind f

def run : Program α → Cloud → α × Cloud
  | done result, cloud => (result, cloud)
  | ask request next, cloud => (next (request.answer cloud).1).run (request.answer cloud).2

def requests : Program α → Cloud → List (Cloud × Request)
  | done _, _ => []
  | ask request next, cloud =>
    (cloud, request) :: (next (request.answer cloud).1).requests (request.answer cloud).2

@[simp] theorem run_bind (p : Program α) (f : α → Program β) (cloud : Cloud) :
    (p.bind f).run cloud = (f (p.run cloud).1).run (p.run cloud).2 := by
  induction p generalizing cloud with
  | done result => rfl
  | ask request next ih => exact ih _ _

/-- The requests of a program in two parts are those of the first part, then those of the second on
the service that the first left. -/
@[simp] theorem requests_bind (p : Program α) (f : α → Program β) (cloud : Cloud) :
    (p.bind f).requests cloud =
      p.requests cloud ++ (f (p.run cloud).1).requests (p.run cloud).2 := by
  induction p generalizing cloud with
  | done result => rfl
  | ask request next ih =>
    rw [bind, requests, ih, requests, run]
    rfl

end Program

/-- Calls that are made one after the other lead from one cloud to another; each is shown with the
cloud that it meets. -/
def InTurn : Cloud → List (Cloud × Request) → Cloud → Prop
  | cloud, [], last => last = cloud
  | cloud, x :: rest, last => x.1 = cloud ∧ InTurn (x.2.answer cloud).2 rest last

namespace InTurn

variable {cloud middle last : Cloud} {xs ys : List (Cloud × Request)}

/-- Requests that follow one another on a service may be joined. -/
theorem append (hx : InTurn cloud xs middle) (hy : InTurn middle ys last) :
    InTurn cloud (xs ++ ys) last := by
  induction xs generalizing cloud with
  | nil =>
    obtain rfl : middle = cloud := hx
    exact hy
  | cons x rest ih => exact ⟨hx.1, ih hx.2⟩

/-- Requests in turn may be cut anywhere. -/
theorem split (h : InTurn cloud (xs ++ ys) last) :
    ∃ middle, InTurn cloud xs middle ∧ InTurn middle ys last := by
  induction xs generalizing cloud with
  | nil => exact ⟨cloud, rfl, h⟩
  | cons x rest ih =>
    obtain ⟨middle, hrest, hlast⟩ := ih h.2
    exact ⟨middle, ⟨h.1, hrest⟩, hlast⟩

/-- The cloud notes down these calls and no others. -/
theorem calls (hx : InTurn cloud xs last) :
    last.calls = cloud.calls ++ xs.map fun x => x.2.call := by
  induction xs generalizing cloud with
  | nil =>
    obtain rfl : last = cloud := hx
    exact (List.append_nil _).symm
  | cons x rest ih =>
    simp [ih hx.2]

end InTurn

/-- The requests of a program follow one another on the service, from its start to its end. -/
theorem Program.inTurn_requests {α : Type} (p : Program α) (cloud : Cloud) :
    InTurn cloud (p.requests cloud) (p.run cloud).2 := by
  induction p generalizing cloud with
  | done result => rfl
  | ask request next ih => exact ⟨rfl, ih _ _⟩

namespace Engine

structure Ending where
  outcome : Except Fault Status
  handle : Option Handle
  name : Document

def batchesProgram (request : Handle → List Document → Request)
    (change : List Document → List Document → List Document) :
    Handle → List (List Document) → Program (Except Fault Unit × Handle)
  | h, [] => .done (.ok (), h)
  | h, batch :: rest => .ask (request h batch) fun
    | .error fault => .done (.error fault, h)
    | .ok _ =>
      match sortedSet (change h.instances batch) with
      | .error fault => .done (.error fault, h)
      | .ok instances => batchesProgram request change { h with instances := instances } rest

def inBatchesProgram (request : Handle → List Document → Request)
    (change : List Document → List Document → List Document) (limit : Int) (h : Handle)
    (instances : List Document) : Program (Except Fault Unit × Handle) :=
  match groupsForLimit instances limit with
  | .error fault => .done (.error fault, h)
  | .ok batches => batchesProgram request change h batches

def alignProgram (limit : Int) (h : Handle) (wanted : List Document) :
    Program (Except Fault Bool × Handle) :=
  match alignment h.instances wanted with
  | .error fault => .done (.error fault, h)
  | .ok a =>
    if a.isNothing then .done (.ok false, h)
    else
      (inBatchesProgram .register (fun is batch => is ++ batch) limit h a.toAdd).bind fun
        | (.error fault, h) => .done (.error fault, h)
        | (.ok (), h) => (inBatchesProgram .deregister without limit h a.toRemove).bind fun
          | (outcome, h) => .done (outcome.map fun _ => true, h)

def createProgram (context : Context) (owner : Owner) (spec : DesiredSpec) : Program Ending :=
  let name := nameOfKey context.clusterName owner.key
  .ask (.create name (attributes spec) (tags context owner)) fun
    | .error fault => .done ⟨.error fault, none, .string name⟩
    | .ok handle => (alignProgram context.maxTargets handle spec.instances).bind fun
      | (outcome, h) => .done ⟨outcome.map fun _ => .created, some h, handle.name⟩

def attributesProgram (h : Handle) (spec : DesiredSpec) : Program (Except Fault (Handle × Bool)) :=
  match spec.needsUpdate h with
  | .error fault => .done (.error fault)
  | .ok false => .done (.ok (h, false))
  | .ok true => .ask (.update h (attributes spec)) fun
    | .error fault => .done (.error fault)
    | .ok updated => .done (.ok ({ updated with instances := h.instances }, true))

def updateProgram (context : Context) (h : Handle) (spec : DesiredSpec) : Program Ending :=
  (attributesProgram h spec).bind fun
    | .error fault => .done ⟨.error fault, some h, h.name⟩
    | .ok (current, updated) =>
      (alignProgram context.maxTargets current spec.instances).bind fun
        | (outcome, h) => .done ⟨outcome.map fun aligned =>
            if updated || aligned then .modified else .ready, some h, current.name⟩

def deleteProgram (h : Handle) : Program Ending :=
  .ask (.delete h) fun
    | .error fault => .done ⟨.error fault, some h, h.name⟩
    | .ok _ => .done ⟨.ok .deleted, none, h.name⟩

def program (context : Context) (r : Resource) : Program Ending :=
  match r.desired, r.handle with
  | none, none => .done ⟨.ok r.status, none, .string ""⟩
  | none, some h => deleteProgram h
  | some spec, none => createProgram context r.owner spec
  | some spec, some h => updateProgram context h spec

section Run

variable {context : Context} {now : Moment} {cloud : Cloud}

theorem run_batchesProgram {request : Handle → List Document → Request}
    {call : Cloud → Handle → List Document → Reply Unit}
    (hcall : ∀ cloud h batch, (request h batch).answer cloud =
      Request.acknowledge h (call cloud h batch))
    (change : List Document → List Document → List Document) (h : Handle)
    (batches : List (List Document)) (cloud : Cloud) :
    (batchesProgram request change h batches).run cloud =
      (((callBatches call change cloud h batches).outcome,
        (callBatches call change cloud h batches).handle),
        (callBatches call change cloud h batches).cloud) := by
  -- each call is made on the cloud and for the handle that the batches before it left
  induction batches generalizing h cloud with
  | nil => rfl
  | cons batch rest ih =>
    rw [batchesProgram, callBatches, Program.run, hcall]
    cases hc : call cloud h batch with
    | mk outcome cloud' =>
      cases outcome with
      | error fault => rfl
      | ok =>
        simp only [Request.acknowledge, Except.map]
        cases sortedSet (change h.instances batch) with
        | error fault => rfl
        | ok instances => exact ih _ cloud'

theorem run_inBatchesProgram {request : Handle → List Document → Request}
    {call : Cloud → Handle → List Document → Reply Unit}
    (hcall : ∀ cloud h batch, (request h batch).answer cloud =
      Request.acknowledge h (call cloud h batch))
    (change : List Document → List Document → List Document) (limit : Int) (h : Handle)
    (instances : List Document) (cloud : Cloud) :
    (inBatchesProgram request change limit h instances).run cloud =
      (((callInBatches call change limit cloud h instances).outcome,
        (callInBatches call change limit cloud h instances).handle),
        (callInBatches call change limit cloud h instances).cloud) := by
  unfold inBatchesProgram callInBatches
  cases groupsForLimit instances limit with
  | error fault => rfl
  | ok batches => exact run_batchesProgram hcall change h batches cloud

/-- The program that aligns targets does what the alignment of targets does. -/
theorem run_alignProgram (limit : Int) (h : Handle) (wanted : List Document) (cloud : Cloud) :
    (alignProgram limit h wanted).run cloud =
      (((alignTargets limit cloud h wanted).outcome, (alignTargets limit cloud h wanted).handle),
        (alignTargets limit cloud h wanted).cloud) := by
  have hregister : ∀ cloud h batch, (Request.register h batch).answer cloud =
      Request.acknowledge h (Cloud.register cloud h batch) := fun _ _ _ => rfl
  have hderegister : ∀ cloud h batch, (Request.deregister h batch).answer cloud =
      Request.acknowledge h (Cloud.deregister cloud h batch) := fun _ _ _ => rfl
  unfold alignProgram alignTargets
  cases alignment h.instances wanted with
  | error fault => rfl
  | ok a =>
    dsimp only
    split
    · rfl
    · rw [Program.run_bind, run_inBatchesProgram hregister]
      cases ho : (callInBatches Cloud.register (fun is batch => is ++ batch) limit cloud h
          a.toAdd).outcome with
      | error fault => rfl
      | ok =>
        dsimp only
        rw [Program.run_bind, run_inBatchesProgram hderegister]
        rfl

/-- The program of a creation does what the creation does. -/
theorem run_createProgram (context : Context) (owner : Owner) (spec : DesiredSpec)
    (cloud : Cloud) :
    (createProgram context owner spec).run cloud =
      (⟨(applyCreate context cloud owner spec).outcome,
        (applyCreate context cloud owner spec).handle,
        (applyCreate context cloud owner spec).name⟩,
        (applyCreate context cloud owner spec).cloud) := by
  unfold createProgram applyCreate
  dsimp only
  rw [Program.run, Request.answer]
  cases hc : cloud.create (nameOfKey context.clusterName owner.key) (attributes spec)
      (tags context owner) with
  | mk outcome cloud' =>
    cases outcome with
    | error fault => rfl
    | ok handle =>
      dsimp only
      rw [Program.run_bind, run_alignProgram]
      rfl

/-- The program that updates attributes does what the update of attributes does. -/
theorem run_attributesProgram (h : Handle) (spec : DesiredSpec) (cloud : Cloud) :
    (attributesProgram h spec).run cloud = applyAttributes cloud h spec := by
  unfold attributesProgram applyAttributes
  cases spec.needsUpdate h with
  | error fault => rfl
  | ok needed =>
    cases needed with
    | false => rfl
    | true =>
      dsimp only
      rw [Program.run, Request.answer]
      cases cloud.update h (attributes spec) with
      | mk outcome cloud' => cases outcome <;> rfl

/-- The program of an update does what the update does. -/
theorem run_updateProgram (context : Context) (h : Handle) (spec : DesiredSpec) (cloud : Cloud) :
    (updateProgram context h spec).run cloud =
      (⟨(applyUpdate context cloud h spec).outcome, (applyUpdate context cloud h spec).handle,
        (applyUpdate context cloud h spec).name⟩, (applyUpdate context cloud h spec).cloud) := by
  unfold updateProgram applyUpdate
  rw [Program.run_bind, run_attributesProgram]
  cases applyAttributes cloud h spec with
  | mk outcome cloud' =>
    cases outcome with
    | error fault => rfl
    | ok result =>
      dsimp only
      rw [Program.run_bind, run_alignProgram]
      rfl

/-- The program of a deletion does what the deletion does. -/
theorem run_deleteProgram (h : Handle) (cloud : Cloud) :
    (deleteProgram h).run cloud =
      (⟨(applyDelete cloud h).outcome, (applyDelete cloud h).handle, (applyDelete cloud h).name⟩,
        (applyDelete cloud h).cloud) := by
  unfold deleteProgram applyDelete
  rw [Program.run, Request.answer]
  cases cloud.delete h with
  | mk outcome cloud' => cases outcome <;> rfl

/-- Making the calls that a resource needs is running its program. -/
theorem run_program (context : Context) (r : Resource) (cloud : Cloud) :
    (program context r).run cloud =
      (⟨(apply context cloud r).outcome, (apply context cloud r).handle,
        (apply context cloud r).name⟩, (apply context cloud r).cloud) := by
  unfold program apply
  cases r.desired with
  | none =>
    cases r.handle with
    | none => rfl
    | some h => exact run_deleteProgram h cloud
  | some spec =>
    cases r.handle with
    | none => exact run_createProgram context r.owner spec cloud
    | some h => exact run_updateProgram context h spec cloud

end Run

section Kinds

variable {context : Context} {r : Resource} {cloud : Cloud} {x : Cloud × Request}

theorem mem_batchesProgram {request : Handle → List Document → Request}
    {change : List Document → List Document → List Document} {h : Handle}
    {batches : List (List Document)}
    (hx : x ∈ (batchesProgram request change h batches).requests cloud) :
    ∃ h' batch, x.2 = request h' batch := by
  induction batches generalizing h cloud with
  | nil => cases hx
  | cons batch rest ih =>
    rw [batchesProgram, Program.requests] at hx
    rcases List.mem_cons.mp hx with rfl | hx
    · exact ⟨h, batch, rfl⟩
    · split at hx
      · cases hx
      · split at hx
        · cases hx
        · exact ih hx

theorem mem_inBatchesProgram {request : Handle → List Document → Request}
    {change : List Document → List Document → List Document} {limit : Int} {h : Handle}
    {instances : List Document}
    (hx : x ∈ (inBatchesProgram request change limit h instances).requests cloud) :
    ∃ h' batch, x.2 = request h' batch := by
  unfold inBatchesProgram at hx
  split at hx
  · cases hx
  · exact mem_batchesProgram hx

/-- Aligning targets asks for nothing but registrations and deregistrations. -/
theorem mem_alignProgram {limit : Int} {h : Handle} {wanted : List Document}
    (hx : x ∈ (alignProgram limit h wanted).requests cloud) :
    ∃ h' batch, x.2 = .register h' batch ∨ x.2 = .deregister h' batch := by
  unfold alignProgram at hx
  split at hx
  · cases hx
  · split at hx
    · cases hx
    · rw [Program.requests_bind] at hx
      rcases List.mem_append.mp hx with hx | hx
      · obtain ⟨h', batch, he⟩ := mem_inBatchesProgram hx
        exact ⟨h', batch, Or.inl he⟩
      · split at hx
        · cases hx
        · rw [Program.requests_bind] at hx
          rcases List.mem_append.mp hx with hx | hx
          · obtain ⟨h', batch, he⟩ := mem_inBatchesProgram hx
            exact ⟨h', batch, Or.inr he⟩
          · cases hx

/-- A creation comes first, and only calls about targets come behind it. -/
theorem requests_createProgram (context : Context) (owner : Owner) (spec : DesiredSpec)
    (cloud : Cloud) :
    ∃ later, (createProgram context owner spec).requests cloud =
        (cloud, .create (nameOfKey context.clusterName owner.key) (attributes spec)
          (tags context owner)) :: later ∧
      ∀ x ∈ later, ∃ h batch, x.2 = .register h batch ∨ x.2 = .deregister h batch := by
  refine ⟨_, rfl, fun x hx => ?_⟩
  dsimp only at hx
  split at hx
  · cases hx
  · rw [Program.requests_bind] at hx
    rcases List.mem_append.mp hx with hx | hx
    · exact mem_alignProgram hx
    · cases hx

/-- An update asks for the wanted attributes, and moves targets. -/
theorem mem_updateProgram {h : Handle} {spec : DesiredSpec}
    (hx : x ∈ (updateProgram context h spec).requests cloud) :
    x.2 = .update h (attributes spec) ∨
      ∃ h' batch, x.2 = .register h' batch ∨ x.2 = .deregister h' batch := by
  rw [updateProgram, Program.requests_bind] at hx
  rcases List.mem_append.mp hx with hx | hx
  · left
    unfold attributesProgram at hx
    split at hx
    · cases hx
    · cases hx
    · rw [Program.requests] at hx
      rcases List.mem_cons.mp hx with rfl | hx
      · rfl
      · split at hx <;> cases hx
  · right
    split at hx
    · cases hx
    · rw [Program.requests_bind] at hx
      rcases List.mem_append.mp hx with hx | hx
      · exact mem_alignProgram hx
      · cases hx

theorem requests_deleteProgram (h : Handle) (cloud : Cloud) :
    (deleteProgram h).requests cloud = [(cloud, .delete h)] := by
  rw [deleteProgram, Program.requests]
  split <;> rfl

/-- The kinds of calls for a resource: it is created, updated or deleted, or targets are switched.
-/
theorem mem_program_cases (hx : x ∈ (program context r).requests cloud) :
    (∃ spec, r.desired = some spec ∧ r.handle = none ∧
        x.2 = .create (nameOfKey context.clusterName r.owner.key) (attributes spec)
          (tags context r.owner)) ∨
      (∃ spec h, r.desired = some spec ∧ r.handle = some h ∧ x.2 = .update h (attributes spec)) ∨
      (∃ h, r.desired = none ∧ r.handle = some h ∧ x.2 = .delete h) ∨
      ∃ spec h batch, r.desired = some spec ∧
        (x.2 = .register h batch ∨ x.2 = .deregister h batch) := by
  unfold program at hx
  cases hd : r.desired with
  | none =>
    cases hh : r.handle with
    | none =>
      rw [hd, hh] at hx
      cases hx
    | some h =>
      rw [hd, hh] at hx
      dsimp only at hx
      rw [requests_deleteProgram] at hx
      obtain rfl := List.mem_singleton.mp hx
      exact Or.inr (Or.inr (Or.inl ⟨h, rfl, rfl, rfl⟩))
  | some spec =>
    cases hh : r.handle with
    | none =>
      rw [hd, hh] at hx
      obtain ⟨later, he, hlater⟩ := requests_createProgram context r.owner spec cloud
      dsimp only at hx
      rw [he] at hx
      rcases List.mem_cons.mp hx with rfl | hx
      · exact Or.inl ⟨spec, rfl, rfl, rfl⟩
      · obtain ⟨h, batch, hkind⟩ := hlater x hx
        exact Or.inr (Or.inr (Or.inr ⟨spec, h, batch, rfl, hkind⟩))
    | some h =>
      rw [hd, hh] at hx
      rcases mem_updateProgram hx with he | ⟨h', batch, hkind⟩
      · exact Or.inr (Or.inl ⟨spec, h, rfl, rfl, he⟩)
      · exact Or.inr (Or.inr (Or.inr ⟨spec, h', batch, rfl, hkind⟩))

end Kinds

end Engine

structure Issued where
  resource : Resource
  cloud : Cloud
  request : Request

def requestsFor (id : Identity) (xs : List Issued) : List (Cloud × Request) :=
  (xs.filter fun x => decide (x.resource.owner = .ingress id)).map fun x => (x.cloud, x.request)

namespace Engine

/-- The calls for a resource; a tainted one is left alone. -/
def requestsOf (context : Context) (cloud : Cloud) (r : Resource) : List (Cloud × Request) :=
  if r.tainted then [] else (program context r).requests cloud

def issued (context : Context) (now : Moment) : Cloud → ResourceSet → List Issued
  | _, [] => []
  | cloud, r :: rest => (requestsOf context cloud r).map (fun x => ⟨r, x.1, x.2⟩) ++
      issued context now (reconcile context now cloud r).cloud rest

def requests (engine : Engine) (sources : Sources) (now : Moment) (cloud : Cloud) : List Issued :=
  match plan engine.context sources engine.resources with
  | .ok planned => issued engine.context now cloud planned
  | .error _ => []

section Plan

variable {context : Context} {now : Moment} {cloud : Cloud} {planned : ResourceSet}

@[simp] theorem requestsOf_of_tainted {r : Resource} (ht : r.tainted = true) :
    requestsOf context cloud r = [] := by
  rw [requestsOf, if_pos ht]

theorem requestsOf_of_untainted {r : Resource} (ht : r.tainted = false) :
    requestsOf context cloud r = (program context r).requests cloud := by
  rw [requestsOf, if_neg (by simp [ht])]

/-- The requests for an entry lead from the service before its reconciliation to the one after
it. -/
theorem inTurn_requestsOf (context : Context) (now : Moment) (cloud : Cloud) (r : Resource) :
    InTurn cloud (requestsOf context cloud r) (reconcile context now cloud r).cloud := by
  cases ht : r.tainted with
  | true =>
    rw [reconcile_of_tainted ht, requestsOf_of_tainted ht]
    rfl
  | false =>
    have hturn := (program context r).inTurn_requests cloud
    rw [run_program] at hturn
    rw [(reconcile_of_untainted context now cloud ht).1, requestsOf_of_untainted ht]
    exact hturn

/-- The requests of a commit lead through the service from its start to its end. -/
theorem inTurn_issued (context : Context) (now : Moment) (cloud : Cloud) (planned : ResourceSet) :
    InTurn cloud ((issued context now cloud planned).map fun x => (x.cloud, x.request))
      (cloudAfter context now cloud planned) := by
  induction planned generalizing cloud with
  | nil => rfl
  | cons r rest ih =>
    have hfirst := inTurn_requestsOf context now cloud r
    have hshown : (requestsOf context cloud r).map
        ((fun x : Issued => (x.cloud, x.request)) ∘ fun x => ⟨r, x.1, x.2⟩) =
          requestsOf context cloud r := List.map_id _
    simpa [issued, hshown] using hfirst.append (ih _)

@[simp] theorem issued_append (cloud : Cloud) (set set' : ResourceSet) :
    issued context now cloud (set ++ set') =
      issued context now cloud set ++
        issued context now (cloudAfter context now cloud set) set' := by
  induction set generalizing cloud with
  | nil => rfl
  | cons r rest ih => simp [issued, ih]

/-- A call is made for a resource of the plan that is not tainted, by the program of it. -/
theorem mem_issued {x : Issued} (hx : x ∈ issued context now cloud planned) :
    x.resource ∈ planned ∧ x.resource.tainted = false ∧
      ∃ cloud', (x.cloud, x.request) ∈ (program context x.resource).requests cloud' := by
  induction planned generalizing cloud with
  | nil => cases hx
  | cons r rest ih =>
    rw [issued] at hx
    rcases List.mem_append.mp hx with hx | hx
    · obtain ⟨y, hy, rfl⟩ := List.mem_map.mp hx
      by_cases ht : r.tainted = true
      · rw [requestsOf_of_tainted ht] at hy
        cases hy
      · have ht : r.tainted = false := by simpa using ht
        rw [requestsOf_of_untainted ht] at hy
        exact ⟨List.mem_cons_self, ht, cloud, hy⟩
    · obtain ⟨hmem, ht, hy⟩ := ih hx
      exact ⟨List.mem_cons_of_mem _ hmem, ht, hy⟩

@[simp] theorem requestsFor_append (id : Identity) (xs ys : List Issued) :
    requestsFor id (xs ++ ys) = requestsFor id xs ++ requestsFor id ys := by
  rw [requestsFor, List.filter_append, List.map_append, ← requestsFor, ← requestsFor]

/-- There are no calls for an ingress that is not in the plan. -/
theorem requestsFor_issued_of_absent {id : Identity}
    (hn : ∀ r ∈ planned, r.owner ≠ .ingress id) :
    requestsFor id (issued context now cloud planned) = [] := by
  rw [requestsFor, List.map_eq_nil_iff, List.filter_eq_nil_iff]
  intro x hx
  simpa using hn x.resource (mem_issued hx).1

@[simp] theorem requestsFor_own {id : Identity} {r : Resource} (ho : r.owner = .ingress id)
    (xs : List (Cloud × Request)) :
    requestsFor id (xs.map fun x => ⟨r, x.1, x.2⟩) = xs := by
  rw [requestsFor, List.filter_eq_self.mpr, List.map_map]
  · exact List.map_id _
  · intro x hx
    obtain ⟨y, -, rfl⟩ := List.mem_map.mp hx
    simpa using ho

/-- In a plan of different owners an ingress has one resource. -/
theorem owner_ne_of_split {before after : ResourceSet} {r : Resource} {id : Identity}
    (hd : ResourceSet.Distinct (before ++ r :: after)) (ho : r.owner = .ingress id) :
    (∀ p ∈ before, p.owner ≠ .ingress id) ∧ ∀ p ∈ after, p.owner ≠ .ingress id := by
  obtain ⟨-, hafter, hbefore⟩ := List.pairwise_append.mp hd
  have hself : r.owner.same r.owner = true := by
    rw [ho]
    exact (Owner.same_ingress id id).mpr rfl
  refine ⟨fun p hp he => ?_, fun p hp he => ?_⟩
  · have hne := hbefore p hp r List.mem_cons_self
    rw [he, ← ho, hself] at hne
    cases hne
  · have hne := (List.pairwise_cons.mp hafter).1 p hp
    rw [he, ← ho, hself] at hne
    cases hne

/-- In a plan of different owners the calls for an ingress are those for its resource. -/
theorem requestsFor_issued_of_split {before after : ResourceSet} {r : Resource} {id : Identity}
    (hd : ResourceSet.Distinct (before ++ r :: after)) (ho : r.owner = .ingress id) :
    requestsFor id (issued context now cloud (before ++ r :: after)) =
      requestsOf context (cloudAfter context now cloud before) r := by
  obtain ⟨hleft, hright⟩ := owner_ne_of_split hd ho
  simp [issued, requestsFor_issued_of_absent hleft, requestsFor_issued_of_absent hright, ho]

/-- The requests of a cycle are those of the set that it has planned. -/
theorem requests_of_plan {engine : Engine} {sources : Sources}
    (h : plan engine.context sources engine.resources = .ok planned) :
    engine.requests sources now cloud = issued engine.context now cloud planned := by
  rw [requests, h]

/-- The calls of a cycle lead from the cloud that it meets to the one that it leaves. -/
theorem inTurn_requests (engine : Engine) (sources : Sources) (now : Moment) (cloud : Cloud) :
    InTurn cloud ((engine.requests sources now cloud).map fun x => (x.cloud, x.request))
      (engine.sync sources now cloud).cloud := by
  unfold sync requests
  cases plan engine.context sources engine.resources with
  | error fault => rfl
  | ok planned => exact inTurn_issued engine.context now cloud planned

end Plan

end Engine

namespace Step

def outages : Step → List Outage
  | bootstrap outages => outages
  | sync outages _ _ => outages

def requests (site : Site) : Step → List Issued
  | bootstrap _ => []
  | sync outages sources now => site.engine.requests sources now (site.cloud.withOutages outages)

/-- The calls that a step makes for resources are all of its calls, and each meets the cloud that
the one before it leaves. -/
structure Logged (site : Site) (step : Step) : Prop where
  logged : (step.cycle site).cloud.calls =
    site.cloud.calls ++ (step.requests site).map fun x => x.request.call
  inTurn : InTurn (site.cloud.withOutages step.outages)
    ((step.requests site).map fun x => (x.cloud, x.request)) (step.cycle site).cloud

/-- The cloud notes down the calls of a cycle in the order in which they are made. -/
theorem logged_sync (site : Site) (outages : List Outage) (sources : Sources) (now : Moment) :
    (sync outages sources now).Logged site := by
  have hturn := site.engine.inTurn_requests sources now (site.cloud.withOutages outages)
  have hcalls := hturn.calls
  rw [List.map_map] at hcalls
  exact ⟨hcalls, hturn⟩

end Step

end IngressControl
