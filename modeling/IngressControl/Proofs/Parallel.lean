import IngressControl.Proofs.Requests

/-! Two clouds side by side. The name of a load balancer within the service is the service's own
choice, and the engine does nothing with it but hand it over again. So if two clouds hold the same,
each under a name of its own, and refuse the same calls, then what is done for the one load
balancer comes to the same as what is done for the other. -/

namespace IngressControl

def Handle.anonymous (h : Handle) : Handle := { h with arn := "" }

structure Handle.Renamed (arn arn' : String) (h h' : Handle) : Prop where
  arn : h.arn = arn
  eq : h' = { h with arn := arn' }

namespace Handle.Renamed

variable {arn arn' : String} {h h' : Handle}

theorem arn_eq (hr : h.Renamed arn arn' h') : h'.arn = arn' := by rw [hr.eq]

theorem anonymous_eq (hr : h.Renamed arn arn' h') : h'.anonymous = h.anonymous := by
  rw [hr.eq]
  rfl

theorem withInstances (hr : h.Renamed arn arn' h') (instances : List Document) :
    Handle.Renamed arn arn' { h with instances := instances } { h' with instances := instances } :=
  ⟨hr.arn, by rw [hr.eq]⟩

theorem change (hr : h.Renamed arn arn' h') (attributes : Cloud.Attributes) :
    (attributes.change h).Renamed arn arn' (attributes.change h') := ⟨hr.arn, by rw [hr.eq]; rfl⟩

theorem refl (h : Handle) : h.Renamed h.arn h.arn h := ⟨rfl, rfl⟩

theorem eq_of_same (hr : h.Renamed arn arn h') : h' = h := by rw [hr.eq, ← hr.arn]

theorem name_eq (hr : h.Renamed arn arn' h') : h'.name = h.name := by rw [hr.eq]

theorem instances_eq (hr : h.Renamed arn arn' h') : h'.instances = h.instances := by rw [hr.eq]

section Options

variable {a b : Option Handle}

theorem eq_of_rel (hr : Option.Rel (Handle.Renamed arn arn) a b) : b = a := by
  cases hr with
  | none => rfl
  | some hr => rw [hr.eq_of_same]

theorem anonymous_of_rel (hr : Option.Rel (Handle.Renamed arn arn') a b) :
    b.map Handle.anonymous = a.map Handle.anonymous := by
  cases hr with
  | none => rfl
  | some hr => exact congrArg some hr.anonymous_eq

end Options

end Handle.Renamed

inductive Matching {α β : Type} (R : α → β → Prop) : Except Fault α → Except Fault β → Prop
  | error (fault : Fault) : Matching R (.error fault) (.error fault)
  | ok {a : α} {b : β} (h : R a b) : Matching R (.ok a) (.ok b)

/-- Under a name in one cloud there stands what stands under another name in another cloud, and
both clouds take as many targets in a call. -/
structure Cloud.Matches (arn arn' : String) (c c' : Cloud) : Prop where
  limit : c'.limit = c.limit
  balancer : Option.Rel (Handle.Renamed arn arn') (Ledger.get? arn c.balancers)
    (Ledger.get? arn' c'.balancers)
  targets : Ledger.get? arn' c'.targets = Ledger.get? arn c.targets

structure Reply.Matches (arn arn' : String) {α β : Type} (R : α → β → Prop) (x : Reply α)
    (y : Reply β) : Prop where
  outcome : Matching R x.1 y.1
  cloud : x.2.Matches arn arn' y.2

/-- Acknowledging a call turns matching replies into matching replies. -/
theorem Reply.Matches.acknowledge {arn arn' : String} {h h' : Handle} {x y : Reply Unit}
    (hm : x.Matches arn arn' (fun _ _ => True) y) (hr : h.Renamed arn arn' h') :
    (Request.acknowledge h x).Matches arn arn' (Handle.Renamed arn arn')
      (Request.acknowledge h' y) := by
  obtain ⟨outcome, cloud⟩ := x
  obtain ⟨outcome', cloud'⟩ := y
  refine ⟨?_, hm.cloud⟩
  cases hm.outcome with
  | error fault => exact .error fault
  | ok => exact .ok hr

namespace Request

def refusal (cloud : Cloud) (request : Request) : Option String :=
  (Outage.meet request.call cloud.outages).1

def anonymous : Request → Request
  | create name attributes tags => create name attributes tags
  | update h attributes => update h.anonymous attributes
  | delete h => delete h.anonymous
  | register h instances => register h.anonymous instances
  | deregister h instances => deregister h.anonymous instances

inductive Renamed (arn arn' : String) : Request → Request → Prop
  | update {h h' : Handle} (he : arn = arn') (hr : h.Renamed arn arn' h')
      (attributes : Cloud.Attributes) :
      Renamed arn arn' (.update h attributes) (.update h' attributes)
  | delete {h h' : Handle} (hr : h.Renamed arn arn' h') : Renamed arn arn' (.delete h) (.delete h')
  | register {h h' : Handle} (hr : h.Renamed arn arn' h') (instances : List Document) :
      Renamed arn arn' (.register h instances) (.register h' instances)
  | deregister {h h' : Handle} (hr : h.Renamed arn arn' h') (instances : List Document) :
      Renamed arn arn' (.deregister h instances) (.deregister h' instances)

theorem Renamed.anonymous_eq {arn arn' : String} {request request' : Request}
    (hq : request.Renamed arn arn' request') : request'.anonymous = request.anonymous := by
  cases hq with
  | update he hr attributes => exact congrArg (Request.update · attributes) hr.anonymous_eq
  | delete hr => exact congrArg Request.delete hr.anonymous_eq
  | register hr instances => exact congrArg (Request.register · instances) hr.anonymous_eq
  | deregister hr instances => exact congrArg (Request.deregister · instances) hr.anonymous_eq

@[simp] theorem call_anonymous (request : Request) : request.anonymous.call = request.call := by
  cases request <;> rfl

theorem Renamed.call_eq {arn arn' : String} {request request' : Request}
    (hq : request.Renamed arn arn' request') : request'.call = request.call := by
  rw [← request'.call_anonymous, hq.anonymous_eq, request.call_anonymous]

end Request

/-- What two clouds of one region make of a creation is the same but for the name. -/
theorem Cloud.renamed_made {c c' : Cloud} (name : String) (attributes : Cloud.Attributes)
    (tags : List (String × Document)) (hregion : c'.region = c.region) :
    (c.made name attributes tags).Renamed (c.made name attributes tags).arn
      (c'.made name attributes tags).arn (c'.made name attributes tags) := by
  refine ⟨rfl, ?_⟩
  rw [Cloud.made, Cloud.made, hregion]
  rfl

namespace Cloud.Matches

variable {arn arn' : String} {c c' : Cloud}

/-- If both clouds refuse a call or both carry it out, they match afterwards as they do by what the
call does. -/
theorem perform {α β : Type} {R : α → β → Prop} {operation : Operation} {target : Document}
    {act : Cloud → Reply α} {act' : Cloud → Reply β} (hc : c.Matches arn arn' c')
    (hf : (Outage.meet ⟨operation, target⟩ c.outages).1 =
      (Outage.meet ⟨operation, target⟩ c'.outages).1)
    (hact : ∀ {d d' : Cloud}, d.Matches arn arn' d' → (act d).Matches arn arn' R (act' d')) :
    (c.perform operation target act).Matches arn arn' R (c'.perform operation target act') := by
  cases hm : Outage.meet ⟨operation, target⟩ c.outages with
  | mk reason outages =>
    cases hm' : Outage.meet ⟨operation, target⟩ c'.outages with
    | mk reason' outages' =>
      rw [hm, hm'] at hf
      obtain rfl : reason = reason' := hf
      simp only [Cloud.perform, hm, hm']
      cases reason with
      | none => exact hact ⟨hc.limit, hc.balancer, hc.targets⟩
      | some reason => exact ⟨.error _, hc.limit, hc.balancer, hc.targets⟩

theorem withTargets (hc : c.Matches arn arn' c') (change : List Document → List Document) :
    (c.withTargets arn change).Matches arn arn' (c'.withTargets arn' change) where
  limit := hc.limit
  balancer := hc.balancer
  targets := by simp [hc.targets]

theorem withBalancer {h h' : Handle} (hc : c.Matches arn arn' c') (hr : h.Renamed arn arn' h') :
    (c.withBalancer arn h).Matches arn arn' (c'.withBalancer arn' h') where
  limit := hc.limit
  balancer := by simpa using hr
  targets := hc.targets

theorem withoutBalancer (hc : c.Matches arn arn' c') :
    (c.withoutBalancer arn).Matches arn arn' (c'.withoutBalancer arn') where
  limit := hc.limit
  balancer := by simp
  targets := by simp

/-- Matching services judge the size of a batch alike. -/
theorem exceedsLimit (hc : c.Matches arn arn' c') (count : Nat) :
    c'.exceedsLimit count = c.exceedsLimit count := by
  rw [Cloud.exceedsLimit, Cloud.exceedsLimit, hc.limit]

theorem withinLimit {R : Unit → Unit → Prop} {instances : List Document}
    {act act' : Cloud → Reply Unit} (hc : c.Matches arn arn' c')
    (hact : (act c).Matches arn arn' R (act' c')) :
    (c.withinLimit instances act).Matches arn arn' R (c'.withinLimit instances act') := by
  unfold Cloud.withinLimit
  rw [hc.exceedsLimit, hc.limit]
  cases c.exceedsLimit instances.length with
  | error fault => exact ⟨.error _, hc⟩
  | ok exceeds =>
    cases exceeds with
    | true => exact ⟨.error _, hc⟩
    | false => exact hact

/-- Registering instances and taking them off are the same call but for their operation and what
they make of the targets. -/
theorem changeTargets {operation : Operation} {h h' : Handle} (hc : c.Matches arn arn' c')
    (hr : h.Renamed arn arn' h')
    (hf : (Outage.meet ⟨operation, h.name⟩ c.outages).1 =
      (Outage.meet ⟨operation, h.name⟩ c'.outages).1)
    (change : List Document → List Document → List Document) (instances : List Document) :
    (Request.acknowledge h (c.perform operation h.name fun cloud =>
      cloud.withinLimit instances fun cloud =>
        (.ok (), cloud.withTargets h.arn fun ts => change ts instances))).Matches arn arn'
      (Handle.Renamed arn arn')
      (Request.acknowledge h' (c'.perform operation h'.name fun cloud =>
        cloud.withinLimit instances fun cloud =>
          (.ok (), cloud.withTargets h'.arn fun ts => change ts instances))) := by
  rw [hr.name_eq, hr.arn, hr.arn_eq]
  exact Reply.Matches.acknowledge (hc.perform hf fun hd => hd.withinLimit
    ⟨.ok trivial, hd.withTargets fun ts => change ts instances⟩) hr

/-- Deletions of renamed load balancers that meet the same refusal answer alike. -/
theorem delete {h h' : Handle} (hc : c.Matches arn arn' c') (hr : h.Renamed arn arn' h')
    (hf : (Outage.meet ⟨.delete, h.name⟩ c.outages).1 =
      (Outage.meet ⟨.delete, h.name⟩ c'.outages).1) :
    (Request.acknowledge h (c.delete h)).Matches arn arn' (Handle.Renamed arn arn')
      (Request.acknowledge h' (c'.delete h')) := by
  unfold Cloud.delete
  rw [hr.name_eq, hr.arn, hr.arn_eq]
  exact Reply.Matches.acknowledge (hc.perform hf fun hd => ⟨.ok trivial, hd.withoutBalancer⟩) hr

/-- Updates of one load balancer that meet the same refusal answer alike. -/
theorem update {h : Handle} (hc : c.Matches h.arn h.arn c')
    (hf : (Outage.meet ⟨.update, h.name⟩ c.outages).1 =
      (Outage.meet ⟨.update, h.name⟩ c'.outages).1) (attributes : Attributes) :
    (c.update h attributes).Matches h.arn h.arn (Handle.Renamed h.arn h.arn)
      (c'.update h attributes) := by
  unfold Cloud.update
  refine hc.perform hf fun {d d'} hd => ?_
  have hbalancer := hd.balancer
  generalize Ledger.get? h.arn d.balancers = stored at hbalancer
  generalize Ledger.get? h.arn d'.balancers = stored' at hbalancer
  cases hbalancer with
  | none => exact ⟨.error _, hd⟩
  | some hstored =>
    exact ⟨.ok (hstored.change attributes), hd.withBalancer (hstored.change attributes)⟩

section Creation

variable (name : String) (attributes : Attributes) (tags : List (String × Document))

/-- Services of one region and limit match at the load balancers that they have just made. -/
theorem withMade (hregion : c'.region = c.region) (hlimit : c'.limit = c.limit) :
    (c.withMade name attributes tags).Matches (c.made name attributes tags).arn
      (c'.made name attributes tags).arn (c'.withMade name attributes tags) where
  limit := hlimit
  balancer := by simpa using renamed_made name attributes tags hregion
  targets := by simp

/-- If both clouds refuse a creation or both carry it out, it fails in both in the same way, or
makes the same load balancer in both but for its name. -/
theorem create (hregion : c'.region = c.region) (hlimit : c'.limit = c.limit)
    (hf : (Outage.meet ⟨.create, .string name⟩ c.outages).1 =
      (Outage.meet ⟨.create, .string name⟩ c'.outages).1) :
    (∃ fault d d', c.create name attributes tags = (.error fault, d) ∧
        c'.create name attributes tags = (.error fault, d')) ∨
      ∃ arn arn' h h' d d', c.create name attributes tags = (.ok h, d) ∧
        c'.create name attributes tags = (.ok h', d') ∧ h.Renamed arn arn' h' ∧
        d.Matches arn arn' d' := by
  cases hm : Outage.meet ⟨.create, .string name⟩ c.outages with
  | mk reason outages =>
    cases hm' : Outage.meet ⟨.create, .string name⟩ c'.outages with
    | mk reason' outages' =>
      rw [hm, hm'] at hf
      obtain rfl : reason = reason' := hf
      simp only [Cloud.create, Cloud.perform, hm, hm']
      cases reason with
      | some reason => exact Or.inl ⟨_, _, _, rfl, rfl⟩
      | none =>
        have hmade := withMade name attributes tags hregion hlimit
        refine Or.inr ⟨_, _, _, _, _, _, rfl, rfl, renamed_made name attributes tags hregion, ?_⟩
        exact ⟨hmade.limit, hmade.balancer, hmade.targets⟩

end Creation

end Cloud.Matches

section Answers

variable {arn arn' : String} {c c' : Cloud} {request request' : Request}

/-- Clouds that refuse the same call, or both carry it out, answer it alike for both names, and
match again. -/
theorem Request.Renamed.answer (hq : request.Renamed arn arn' request')
    (hc : c.Matches arn arn' c') (hf : request.refusal c = request'.refusal c') :
    (request.answer c).Matches arn arn' (Handle.Renamed arn arn') (request'.answer c') := by
  rw [Request.refusal, Request.refusal, hq.call_eq] at hf
  cases hq with
  | update he hr attributes =>
    subst he
    obtain rfl := hr.eq_of_same
    obtain rfl := hr.arn
    exact hc.update hf attributes
  | delete hr => exact hc.delete hr hf
  | register hr instances => exact hc.changeTargets hr hf Cloud.join instances
  | deregister hr instances => exact hc.changeTargets hr hf Cloud.leave instances

end Answers

/-- Calls are refused as a function tells of the calls so far, the one in question being the last
of them. -/
def RefusedAs (refusal : List Call → Option String) : List Call → List (Cloud × Request) → Prop
  | _, [] => True
  | calls, x :: rest => x.2.refusal x.1 = refusal (calls ++ [x.2.call]) ∧
      RefusedAs refusal (calls ++ [x.2.call]) rest

/-- Calls with all that is handed over but the names within the service. -/
def anonymously (xs : List (Cloud × Request)) : List Request := xs.map fun x => x.2.anonymous

namespace Program

variable {α β : Type} {R : α → α → Prop} {S : β → β → Prop} {arn arn' : String} {c c' : Cloud}

inductive Renamed (arn arn' : String) (R : α → α → Prop) : Program α → Program α → Prop
  | done {a a' : α} (h : R a a') : Renamed arn arn' R (.done a) (.done a')
  | ask {request request' : Request} {next next' : Except Fault Handle → Program α}
      (hq : request.Renamed arn arn' request')
      (hn : ∀ x x', Matching (Handle.Renamed arn arn') x x' →
        Renamed arn arn' R (next x) (next' x')) :
      Renamed arn arn' R (.ask request next) (.ask request' next')

/-- Renamed programs that go on as renamed programs are renamed programs. -/
theorem Renamed.bind {p p' : Program α} {f f' : α → Program β} (hp : Renamed arn arn' R p p')
    (hf : ∀ a a', R a a' → Renamed arn arn' S (f a) (f' a')) :
    Renamed arn arn' S (p.bind f) (p'.bind f') := by
  induction hp with
  | done h => exact hf _ _ h
  | ask hq hn ih => exact .ask hq ih

/-- Two programs come to the same on two clouds: their results are related, their calls are the
same but for the names, and the clouds match afterwards. -/
structure Parallel (arn arn' : String) (R : α → α → Prop) (p p' : Program α) (c c' : Cloud) :
    Prop where
  result : R (p.run c).1 (p'.run c').1
  requests : anonymously (p'.requests c') = anonymously (p.requests c)
  cloud : (p.run c).2.Matches arn arn' (p'.run c').2

/-- On clouds that match, and refuse the same calls, programs that are the same but for a name come
to the same. -/
theorem Renamed.parallel {p p' : Program α} (hp : Renamed arn arn' R p p')
    (hc : c.Matches arn arn' c') {refusal : List Call → Option String} {calls : List Call}
    (hx : RefusedAs refusal calls (p.requests c)) (hx' : RefusedAs refusal calls (p'.requests c')) :
    Parallel arn arn' R p p' c c' := by
  -- along the program: both clouds answer a call alike, so both go on in the same way
  induction hp generalizing c c' calls with
  | done h => exact ⟨h, rfl, hc⟩
  | @ask request request' next next' hq hn ih =>
    obtain ⟨hfirst, hrest⟩ := hx
    obtain ⟨hfirst', hrest'⟩ := hx'
    rw [hq.call_eq] at hfirst' hrest'
    have hanswer := hq.answer hc (hfirst.trans hfirst'.symm)
    have hnext := ih _ _ hanswer.outcome hanswer.cloud hrest hrest'
    exact ⟨hnext.result, congrArg₂ List.cons hq.anonymous_eq hnext.requests, hnext.cloud⟩

end Program

namespace Engine

variable {arn arn' : String} {h h' : Handle}

/-- Calls that end with the same outcome and leave the same load balancer under another name. -/
def Ended (arn arn' : String) {α : Type} (x x' : Except Fault α × Handle) : Prop :=
  x'.1 = x.1 ∧ x.2.Renamed arn arn' x'.2

structure Ending.Renamed (arn arn' : String) (e e' : Ending) : Prop where
  outcome : e'.outcome = e.outcome
  handle : Option.Rel (Handle.Renamed arn arn') e.handle e'.handle

section Programs

variable {request : Handle → List Document → Request}
  {change : List Document → List Document → List Document}

theorem renamed_batchesProgram
    (hrequest : ∀ {h h' : Handle} batch, h.Renamed arn arn' h' →
      (request h batch).Renamed arn arn' (request h' batch))
    (hr : h.Renamed arn arn' h') (batches : List (List Document)) :
    Program.Renamed arn arn' (Ended arn arn') (batchesProgram request change h batches)
      (batchesProgram request change h' batches) := by
  induction batches generalizing h h' with
  | nil => exact .done ⟨rfl, hr⟩
  | cons batch rest ih =>
    refine .ask (hrequest batch hr) fun x x' hx => ?_
    cases hx with
    | error fault => exact .done ⟨rfl, hr⟩
    | ok =>
      simp only [hr.instances_eq]
      cases sortedSet (change h.instances batch) with
      | error fault => exact .done ⟨rfl, hr⟩
      | ok instances => exact ih (hr.withInstances instances)

theorem renamed_inBatchesProgram
    (hrequest : ∀ {h h' : Handle} batch, h.Renamed arn arn' h' →
      (request h batch).Renamed arn arn' (request h' batch))
    (hr : h.Renamed arn arn' h') (limit : Int) (instances : List Document) :
    Program.Renamed arn arn' (Ended arn arn') (inBatchesProgram request change limit h instances)
      (inBatchesProgram request change limit h' instances) := by
  unfold inBatchesProgram
  cases groupsForLimit instances limit with
  | error fault => exact .done ⟨rfl, hr⟩
  | ok batches => exact renamed_batchesProgram hrequest hr batches

/-- Aligning the targets of a renamed load balancer is the renamed program. -/
theorem renamed_alignProgram (hr : h.Renamed arn arn' h') (limit : Int) (wanted : List Document) :
    Program.Renamed arn arn' (Ended arn arn') (alignProgram limit h wanted)
      (alignProgram limit h' wanted) := by
  unfold alignProgram
  rw [hr.instances_eq]
  cases alignment h.instances wanted with
  | error fault => exact .done ⟨rfl, hr⟩
  | ok a =>
    dsimp only
    split
    · exact .done ⟨rfl, hr⟩
    · refine (renamed_inBatchesProgram (fun batch hr => .register hr batch) hr limit _).bind ?_
      rintro ⟨outcome, added⟩ ⟨outcome', added'⟩ ⟨rfl, hadded⟩
      cases outcome' with
      | error fault => exact .done ⟨rfl, hadded⟩
      | ok =>
        refine (renamed_inBatchesProgram (fun batch hr => .deregister hr batch) hadded limit
          _).bind ?_
        rintro ⟨outcome, removed⟩ ⟨outcome', removed'⟩ ⟨rfl, hremoved⟩
        exact .done ⟨rfl, hremoved⟩

theorem renamed_attributesProgram (h : Handle) (spec : DesiredSpec) :
    Program.Renamed h.arn h.arn
      (Matching fun x x' => x.1.Renamed h.arn h.arn x'.1 ∧ x'.2 = x.2)
      (attributesProgram h spec) (attributesProgram h spec) := by
  unfold attributesProgram
  split
  · exact .done (.error _)
  · exact .done (.ok ⟨.refl h, rfl⟩)
  · refine .ask (.update rfl (.refl h) (attributes spec)) fun x x' hx => ?_
    cases hx with
    | error fault => exact .done (.error fault)
    | ok hupdated => exact .done (.ok ⟨hupdated.withInstances h.instances, rfl⟩)

/-- The calls for a load balancer that is there are made for its name. -/
theorem renamed_updateProgram (context : Context) (h : Handle) (spec : DesiredSpec) :
    Program.Renamed h.arn h.arn (Ending.Renamed h.arn h.arn) (updateProgram context h spec)
      (updateProgram context h spec) := by
  refine (renamed_attributesProgram h spec).bind fun x x' hx => ?_
  cases hx with
  | error fault => exact .done ⟨rfl, .some (.refl h)⟩
  | @ok x x' hx =>
    obtain ⟨current, updated⟩ := x
    obtain ⟨current', updated'⟩ := x'
    obtain ⟨hcurrent, rfl⟩ := hx
    refine (renamed_alignProgram hcurrent context.maxTargets spec.instances).bind ?_
    rintro ⟨outcome, aligned⟩ ⟨outcome', aligned'⟩ ⟨rfl, haligned⟩
    exact .done ⟨rfl, .some haligned⟩

/-- A deletion is its own renamed program. -/
theorem renamed_deleteProgram (h : Handle) :
    Program.Renamed h.arn h.arn (Ending.Renamed h.arn h.arn) (deleteProgram h)
      (deleteProgram h) := by
  refine .ask (.delete (.refl h)) fun x x' hx => ?_
  cases hx with
  | error fault => exact .done ⟨rfl, .some (.refl h)⟩
  | ok => exact .done ⟨rfl, .none⟩

end Programs

/-- Two courses of calls for a resource come to the same: they make the same calls and end in the
same way, but for names that the service gives. A load balancer that was there before keeps its
name, and stands in both clouds alike; so does the one that there is in the end. -/
structure Concordant (former : Option Handle) (p p' : Program Ending) (c c' : Cloud) : Prop where
  outcome : (p'.run c').1.outcome = (p.run c).1.outcome
  handle : (p'.run c').1.handle.map Handle.anonymous = (p.run c).1.handle.map Handle.anonymous
  requests : anonymously (p'.requests c') = anonymously (p.requests c)
  kept : ∀ h, former = some h → (p'.run c').1.handle = (p.run c).1.handle ∧
    (p.run c).2.Matches h.arn h.arn (p'.run c').2
  current : ∀ h h', (p.run c).1.handle = some h → (p'.run c').1.handle = some h' →
    (p.run c).2.Matches h.arn h'.arn (p'.run c').2

/-- A call whose answers lead on to what comes to the same. -/
theorem Concordant.ask {former : Option Handle} {request request' : Request}
    {next next' : Except Fault Handle → Program Ending} {c c' : Cloud}
    (hq : request'.anonymous = request.anonymous)
    (hn : Concordant former (next (request.answer c).1) (next' (request'.answer c').1)
      (request.answer c).2 (request'.answer c').2) :
    Concordant former (.ask request next) (.ask request' next') c c' where
  outcome := hn.outcome
  handle := hn.handle
  requests := congrArg₂ List.cons hq hn.requests
  kept := hn.kept
  current := hn.current

/-- Programs that run in parallel end in concord. -/
theorem concordant_of_parallel {former : Option Handle} {p p' : Program Ending} {c c' : Cloud}
    (hp : Program.Parallel arn arn' (Ending.Renamed arn arn') p p' c c')
    (hf : ∀ h, former = some h → h.arn = arn ∧ h.arn = arn') : Concordant former p p' c c' := by
  have hhandle := hp.result.handle
  refine ⟨hp.result.outcome, Handle.Renamed.anonymous_of_rel hhandle, hp.requests, fun h hh => ?_,
    fun h h' hh hh' => ?_⟩
  · obtain ⟨rfl, rfl⟩ := hf h hh
    exact ⟨Handle.Renamed.eq_of_rel hhandle, hp.cloud⟩
  · rw [hh, hh'] at hhandle
    cases hhandle with
    | some hr =>
      rw [hr.arn, hr.arn_eq]
      exact hp.cloud

section Resources

variable {context : Context} {c c' : Cloud} {refusal : List Call → Option String}
  {calls : List Call}

/-- Two creations that are refused alike make the same calls and end alike, whatever names the load
balancers get. -/
theorem concordant_createProgram {owner : Owner} {spec : DesiredSpec}
    (hregion : c'.region = c.region) (hlimit : c'.limit = c.limit)
    (hx : RefusedAs refusal calls ((createProgram context owner spec).requests c))
    (hx' : RefusedAs refusal calls ((createProgram context owner spec).requests c')) :
    Concordant none (createProgram context owner spec) (createProgram context owner spec) c c' := by
  obtain ⟨hfirst, hrest⟩ := hx
  obtain ⟨hfirst', hrest'⟩ := hx'
  refine .ask rfl ?_
  dsimp only [Request.answer] at hrest hrest' ⊢
  rcases Cloud.Matches.create (nameOfKey context.clusterName owner.key) (attributes spec)
    (tags context owner) hregion hlimit (hfirst.trans hfirst'.symm) with
    ⟨fault, d, d', he, he'⟩ | ⟨arn, arn', h, h', d, d', he, he', hr, hd⟩
  · rw [he, he']
    exact ⟨rfl, rfl, rfl, nofun, nofun⟩
  · rw [he] at hrest ⊢
    rw [he'] at hrest' ⊢
    refine concordant_of_parallel (Program.Renamed.parallel ?_ hd hrest hrest') nofun
    refine (renamed_alignProgram hr context.maxTargets spec.instances).bind ?_
    rintro ⟨outcome, aligned⟩ ⟨outcome', aligned'⟩ ⟨rfl, haligned⟩
    exact .done ⟨rfl, .some haligned⟩

/-- What a resource needs comes to the same on clouds in which the load balancer that it has stands
alike. -/
theorem concordant_program {r : Resource} (hregion : c'.region = c.region)
    (hlimit : c'.limit = c.limit) (hh : ∀ h, r.handle = some h → c.Matches h.arn h.arn c')
    (hx : RefusedAs refusal calls ((program context r).requests c))
    (hx' : RefusedAs refusal calls ((program context r).requests c')) :
    Concordant r.handle (program context r) (program context r) c c' := by
  -- the program is the same for both, and only what it creates gets names that differ
  unfold program at hx hx' ⊢
  cases hd : r.desired with
  | none =>
    rw [hd] at hx hx'
    cases hhandle : r.handle with
    | none => exact ⟨rfl, rfl, rfl, nofun, nofun⟩
    | some h =>
      rw [hhandle] at hx hx'
      refine concordant_of_parallel
        ((renamed_deleteProgram h).parallel (hh h hhandle) hx hx') ?_
      rintro h' ⟨⟩
      exact ⟨rfl, rfl⟩
  | some spec =>
    rw [hd] at hx hx'
    cases hhandle : r.handle with
    | none =>
      rw [hhandle] at hx hx'
      exact concordant_createProgram hregion hlimit hx hx'
    | some h =>
      rw [hhandle] at hx hx'
      refine concordant_of_parallel
        ((renamed_updateProgram context h spec).parallel (hh h hhandle) hx hx') ?_
      rintro h' ⟨⟩
      exact ⟨rfl, rfl⟩

end Resources

end Engine

end IngressControl
