import IngressControl.Proofs.Endings

/-! Courses of calls that change targets. Each call is answered by anyone, with success or with a
failure. What such a course has registered and taken off so far, with what was there before, is what
stands; the handle that follows the course has that, in order, as its instances. -/

namespace IngressControl

open Document (Texts)

structure Exchange where
  request : Request
  answer : Except Fault Handle

/-- A course that a program can take, whoever answers its calls, and the result that it leads to. -/
inductive Program.Takes {α : Type} : Program α → List Exchange → α → Prop
  | done {result : α} : Takes (.done result) [] result
  | ask {request : Request} {next : Except Fault Handle → Program α}
      (answer : Except Fault Handle) {course : List Exchange} {result : α}
      (h : (next answer).Takes course result) :
      Takes (.ask request next) (⟨request, answer⟩ :: course) result

inductive Shift
  | register (batch : List Document)
  | deregister (batch : List Document)

namespace Shift

def isRegister : Shift → Bool
  | register _ => true
  | deregister _ => false

def isDeregister : Shift → Bool
  | register _ => false
  | deregister _ => true

def request (h : Handle) : Shift → Request
  | register batch => .register h batch
  | deregister batch => .deregister h batch

def change (instances : List Document) : Shift → List Document
  | register batch => instances ++ batch
  | deregister batch => Engine.without instances batch

def apply (targets : List Document) : Shift → List Document
  | register batch => Cloud.join targets batch
  | deregister batch => Cloud.leave targets batch

/-- The call registers wanted instances only, or takes off unwanted ones only. -/
def Toward (wanted : List Document) : Shift → Prop
  | register batch => ∀ d ∈ batch, d ∈ wanted
  | deregister batch => ∀ d ∈ batch, d ∉ wanted

/-- A shift toward wanted texts leaves the instances of a handle texts. -/
theorem texts_change {instances wanted : List Document} (hi : Texts instances) (hw : Texts wanted)
    {shift : Shift} (ht : shift.Toward wanted) : Texts (shift.change instances) := by
  cases shift with
  | register batch => exact hi.append (hw.mono ht)
  | deregister batch => exact hi.mono fun d hd => (List.mem_filter.mp hd).1

end Shift

namespace Exchange

def on (x : Cloud × Request) : Exchange := ⟨x.2, (x.2.answer x.1).1⟩

def succeeded (x : Exchange) : Bool :=
  match x.answer with
  | .ok _ => true
  | .error _ => false

def shift? (x : Exchange) : Option Shift :=
  match x.request with
  | .register _ batch => some (.register batch)
  | .deregister _ batch => some (.deregister batch)
  | _ => none

def isRegister (x : Exchange) : Bool := x.shift?.any Shift.isRegister

def isDeregister (x : Exchange) : Bool := x.shift?.any Shift.isDeregister

def gained (x : Exchange) : List Document :=
  match x.request, x.answer with
  | .register _ batch, .ok _ => batch
  | _, _ => []

def lost (x : Exchange) : List Document :=
  match x.request, x.answer with
  | .deregister _ batch, .ok _ => batch
  | _, _ => []

/-- The exchange of a shift tells which shift it was. -/
theorem shift?_request (shift : Shift) (h : Handle) (answer : Except Fault Handle) :
    shift? ⟨shift.request h, answer⟩ = some shift := by
  cases shift <;> rfl

@[simp] theorem gained_of_error (request : Request) (fault : Fault) :
    gained ⟨request, .error fault⟩ = [] := by
  cases request <;> rfl

@[simp] theorem lost_of_error (request : Request) (fault : Fault) :
    lost ⟨request, .error fault⟩ = [] := by
  cases request <;> rfl

section Toward

variable {x : Exchange} {shift : Shift} {wanted : List Document} {d : Document}

/-- What a shift toward the wanted targets adds is wanted. -/
theorem mem_wanted_of_gained (hx : x.shift? = some shift) (ht : shift.Toward wanted)
    (hd : d ∈ x.gained) : d ∈ wanted := by
  obtain ⟨request, answer⟩ := x
  cases answer with
  | error fault =>
    rw [gained_of_error] at hd
    cases hd
  | ok handle =>
    cases request with
    | register h batch =>
      obtain rfl := Option.some.inj hx
      exact ht d hd
    | _ => cases hd

/-- What a shift toward the wanted targets takes away is not wanted. -/
theorem not_mem_wanted_of_lost (hx : x.shift? = some shift) (ht : shift.Toward wanted)
    (hd : d ∈ x.lost) : d ∉ wanted := by
  obtain ⟨request, answer⟩ := x
  cases answer with
  | error fault =>
    rw [lost_of_error] at hd
    cases hd
  | ok handle =>
    cases request with
    | deregister h batch =>
      obtain rfl := Option.some.inj hx
      exact ht d hd
    | _ => cases hd

end Toward

section Succeeded

variable {x : Exchange} {batch : List Document}

theorem gained_of_succeeded (hok : x.succeeded = true) (hs : x.shift? = some (.register batch)) :
    x.gained = batch := by
  obtain ⟨request, answer⟩ := x
  cases answer with
  | error fault => cases hok
  | ok handle =>
    cases request <;> cases hs
    rfl

theorem lost_of_succeeded (hok : x.succeeded = true) (hs : x.shift? = some (.deregister batch)) :
    x.lost = batch := by
  obtain ⟨request, answer⟩ := x
  cases answer with
  | error fault => cases hok
  | ok handle =>
    cases request <;> cases hs
    rfl

end Succeeded

end Exchange

namespace Program

variable {α β : Type}

/-- A program takes the course of its own requests on a service. -/
theorem takes_requests (p : Program α) (cloud : Cloud) :
    p.Takes ((p.requests cloud).map Exchange.on) (p.run cloud).1 := by
  induction p generalizing cloud with
  | done result => exact .done
  | ask request next ih => exact .ask _ (ih _ _)

/-- The course of a program in two parts is cut where the first part ends. -/
theorem takes_of_bind {p : Program α} {f : α → Program β} {course : List Exchange} {b : β}
    (h : (p.bind f).Takes course b) :
    ∃ first second a, course = first ++ second ∧ p.Takes first a ∧ (f a).Takes second b := by
  induction p generalizing course with
  | done result => exact ⟨[], course, result, rfl, .done, h⟩
  | ask request next ih =>
    cases h with
    | ask answer h =>
      obtain ⟨first, second, a, rfl, hfirst, hsecond⟩ := ih answer h
      exact ⟨_ :: first, second, a, rfl, .ask answer hfirst, hsecond⟩

theorem of_takes_done {a b : α} {course : List Exchange} (h : (Program.done a).Takes course b) :
    course = [] ∧ b = a := by
  cases h
  exact ⟨rfl, rfl⟩

end Program

/-- What is there or was registered since, without what was taken off. -/
def Standing (current : List Document) (course : List Exchange) (d : Document) : Prop :=
  (d ∈ current ∨ d ∈ course.flatMap Exchange.gained) ∧ d ∉ course.flatMap Exchange.lost

section Standing

variable {current current' wanted : List Document} {course : List Exchange} {x : Exchange}
  {d : Document}

@[simp] theorem standing_nil : Standing current [] d ↔ d ∈ current := by simp [Standing]

/-- What stands in the end depends only on the members of the list at the start. -/
theorem standing_of_mem_iff (h : d ∈ current ↔ d ∈ current') :
    Standing current course d ↔ Standing current' course d := by
  rw [Standing, Standing, h]

def Heading (wanted : List Document) (course : List Exchange) : Prop :=
  ∀ x ∈ course, ∃ shift, x.shift? = some shift ∧ shift.Toward wanted

theorem Heading.mem_of_gained (h : Heading wanted course)
    (hd : d ∈ course.flatMap Exchange.gained) : d ∈ wanted := by
  obtain ⟨x, hx, hd⟩ := List.mem_flatMap.mp hd
  obtain ⟨shift, hshift, ht⟩ := h x hx
  exact Exchange.mem_wanted_of_gained hshift ht hd

theorem Heading.not_mem_of_lost (h : Heading wanted course)
    (hd : d ∈ course.flatMap Exchange.lost) : d ∉ wanted := by
  obtain ⟨x, hx, hd⟩ := List.mem_flatMap.mp hd
  obtain ⟨shift, hshift, ht⟩ := h x hx
  exact Exchange.not_mem_wanted_of_lost hshift ht hd

/-- The first call of a course may count as made already. -/
theorem standing_cons (hw : Heading wanted (x :: course))
    (hx : d ∈ current' ↔ Standing current [x] d) :
    Standing current (x :: course) d ↔ Standing current' course d := by
  -- what the first call has taken off is unwanted, so it is not registered again
  have hapart : d ∈ course.flatMap Exchange.gained → d ∉ x.lost := fun hg hl => by
    have hwanted := Heading.mem_of_gained (fun y hy => hw y (List.mem_cons_of_mem _ hy)) hg
    obtain ⟨shift, hshift, ht⟩ := hw x List.mem_cons_self
    exact Exchange.not_mem_wanted_of_lost hshift ht hl hwanted
  simp only [Standing, hx, List.flatMap_cons, List.flatMap_nil, List.append_nil, List.mem_append]
  tauto

/-- What is wanted stays once it is there. -/
theorem Heading.standing (h : Heading wanted course) (hd : d ∈ wanted)
    (hc : d ∈ current ∨ d ∈ course.flatMap Exchange.gained) : Standing current course d :=
  ⟨hc, fun hl => h.not_mem_of_lost hl hd⟩

end Standing

/-- A change of instances that succeeds, and the change of targets that goes with it. -/
theorem mem_change_iff {instances : List Document} (hi : Texts instances) (shift : Shift)
    (h handle : Handle) (d : Document) :
    d ∈ shift.change instances ↔ Standing instances [⟨shift.request h, .ok handle⟩] d := by
  cases shift with
  | register batch => simp [Shift.change, Shift.request, Standing, Exchange.gained, Exchange.lost]
  | deregister batch =>
    simp [Shift.change, Shift.request, Standing, Exchange.gained, Exchange.lost,
      Engine.mem_without hi]

/-- A shift changes the targets of the service as its exchange says. -/
theorem mem_apply_iff {targets wanted : List Document} (ht : Texts targets) (hw : Texts wanted)
    {shift : Shift} (hs : shift.Toward wanted) (h handle : Handle) (d : Document) :
    d ∈ shift.apply targets ↔ Standing targets [⟨shift.request h, .ok handle⟩] d := by
  cases shift with
  | register batch =>
    have hbatch : Texts batch := hw.mono hs
    simp [Shift.apply, Shift.request, Standing, Exchange.gained, Exchange.lost,
      Cloud.mem_join hbatch]
  | deregister batch =>
    simp [Shift.apply, Shift.request, Standing, Exchange.gained, Exchange.lost,
      Cloud.mem_leave ht]

structure Handle.Follows (h : Handle) (course : List Exchange) (h' : Handle) : Prop where
  same : h' = { h with instances := h'.instances }
  instances : ∀ d, d ∈ h'.instances ↔ Standing h.instances course d
  unchanged : (∀ x ∈ course, x.succeeded = false) → h' = h
  ascending : (∃ x ∈ course, x.succeeded = true) → Document.Ascending h'.instances

theorem Handle.Follows.arn {h h' : Handle} {course : List Exchange} (hf : h.Follows course h') :
    h'.arn = h.arn := by rw [hf.same]

/-- A course that makes some changes of targets in order, up to the first call that fails. Each call
is for the handle as the calls before it left it. -/
inductive Carries : Handle → List Shift → List Exchange → Except Fault Unit → Handle → Prop
  | ended {h : Handle} : Carries h [] [] (.ok ()) h
  | failed {h : Handle} (shift : Shift) (rest : List Shift) (fault : Fault) :
      Carries h (shift :: rest) [⟨shift.request h, .error fault⟩] (.error fault) h
  | made {h h' : Handle} {shift : Shift} {rest : List Shift} {instances : List Document}
      {course : List Exchange} {outcome : Except Fault Unit} (handle : Handle)
      (hs : Engine.sortedSet (shift.change h.instances) = .ok instances)
      (hc : Carries { h with instances := instances } rest course outcome h') :
      Carries h (shift :: rest) (⟨shift.request h, .ok handle⟩ :: course) outcome h'

namespace Carries

variable {h h' h'' : Handle} {shifts shifts' : List Shift} {course course' : List Exchange}
  {outcome : Except Fault Unit} {wanted : List Document}

/-- A course that carries out shifts may be followed by one that carries out more. -/
theorem append (hc : Carries h shifts course (.ok ()) h')
    (hc' : Carries h' shifts' course' outcome h'') :
    Carries h (shifts ++ shifts') (course ++ course') outcome h'' := by
  generalize ho : (.ok () : Except Fault Unit) = first at hc
  induction hc with
  | ended => exact hc'
  | failed shift rest fault => cases ho
  | made handle hs _ ih => exact .made handle hs (ih hc' ho)

/-- The calls of a course are the first of its shifts, in their order. -/
theorem inOrder (hc : Carries h shifts course outcome h') :
    course.map Exchange.shift? <+: shifts.map some := by
  induction hc with
  | ended => exact List.prefix_refl _
  | failed shift rest fault =>
    rw [List.map_cons, Exchange.shift?_request]
    exact List.prefix_append [some shift] _
  | made handle hs _ ih =>
    rw [List.map_cons, Exchange.shift?_request, List.map_cons]
    exact (List.prefix_cons_inj _).mpr ih

/-- A course of shifts toward the wanted targets heads for them. -/
theorem heading (hc : Carries h shifts course outcome h')
    (hw : ∀ shift ∈ shifts, shift.Toward wanted) : Heading wanted course := by
  intro x hx
  have hmem := hc.inOrder.subset (List.mem_map_of_mem hx)
  obtain ⟨shift, hshift, he⟩ := List.mem_map.mp hmem
  exact ⟨shift, he.symm, hw shift hshift⟩

/-- Without a failure all changes are made. -/
theorem complete (hc : Carries h shifts course outcome h')
    (hok : ∀ x ∈ course, x.succeeded = true) :
    outcome = .ok () ∧ course.map Exchange.shift? = shifts.map some := by
  induction hc with
  | ended => exact ⟨rfl, rfl⟩
  | failed shift rest fault => cases hok _ List.mem_cons_self
  | made handle hs _ ih =>
    obtain ⟨ho, hmap⟩ := ih fun x hx => hok x (List.mem_cons_of_mem _ hx)
    rw [List.map_cons, Exchange.shift?_request, hmap]
    exact ⟨ho, rfl⟩

/-- The calls before any call of a course are a course of their own, without a failure, and the call
is for the handle that they leave. A call that fails is the last one. -/
theorem split {before after : List Exchange} {x : Exchange}
    (hc : Carries h shifts (before ++ x :: after) outcome h') :
    (∃ done shift h₀, done ++ [shift] <+: shifts ∧ Carries h done before (.ok ()) h₀ ∧
        x.request = shift.request h₀) ∧
      (∀ y ∈ before, y.succeeded = true) ∧
      ∀ fault, x.answer = .error fault → after = [] ∧ outcome = .error fault := by
  induction before generalizing h shifts with
  | nil =>
    cases hc with
    | failed shift rest fault =>
      refine ⟨⟨[], shift, _, List.prefix_append [shift] rest, .ended, rfl⟩, nofun, fun f hf => ?_⟩
      exact ⟨rfl, congrArg Except.error (Except.error.inj hf)⟩
    | @made _ _ shift rest _ _ _ handle hs _ =>
      exact ⟨⟨[], shift, _, List.prefix_append [shift] rest, .ended, rfl⟩, nofun, nofun⟩
  | cons y before ih =>
    rw [List.cons_append] at hc
    generalize hcourse : before ++ x :: after = course at hc
    cases hc with
    | failed shift rest fault => simp at hcourse
    | @made _ _ shift rest _ _ _ handle hs hc =>
      subst hcourse
      obtain ⟨⟨done, next, h₀, hpre, hdone, hx⟩, hok, hlast⟩ := ih hc
      refine ⟨⟨shift :: done, next, h₀, ?_, .made handle hs hdone, hx⟩, fun z hz => ?_, hlast⟩
      · exact (List.prefix_cons_inj _).mpr hpre
      · rcases List.mem_cons.mp hz with rfl | hz
        · rfl
        · exact hok z hz

/-- The handle follows the course: its instances are what stands after it. -/
theorem follows (hc : Carries h shifts course outcome h') (hi : Texts h.instances)
    (hw : Texts wanted) (ht : ∀ shift ∈ shifts, shift.Toward wanted) : h.Follows course h' := by
  have hheading := hc.heading ht
  induction hc with
  | ended =>
    exact ⟨rfl, fun d => standing_nil.symm, fun _ => rfl, fun ⟨x, hx, _⟩ => absurd hx nofun⟩
  | @failed h shift rest fault =>
    have hgained := Exchange.gained_of_error (shift.request h) fault
    have hlost := Exchange.lost_of_error (shift.request h) fault
    refine ⟨rfl, fun d => by simp [Standing, hgained, hlost], fun _ => rfl, ?_⟩
    rintro ⟨x, hx, hok⟩
    obtain rfl := List.mem_singleton.mp hx
    cases hok
  | @made h h' shift rest instances course outcome handle hs hc ih =>
    have hchange := Shift.texts_change hi hw (ht shift List.mem_cons_self)
    obtain ⟨sorted, hsorted, hmem⟩ := Engine.exists_sortedSet hchange
    obtain rfl := Except.ok.inj (hsorted.symm.trans hs)
    have hrest := ih (hchange.mono fun d hd => (hmem d).mp hd)
      (fun s hs => ht s (List.mem_cons_of_mem _ hs))
      (fun x hx => hheading x (List.mem_cons_of_mem _ hx))
    refine ⟨hrest.same, fun d => ?_, fun hnone => ?_, fun _ => ?_⟩
    · rw [hrest.instances d]
      have hfirst := mem_change_iff hi shift h handle d
      exact (standing_cons hheading ((hmem d).trans hfirst)).symm
    · cases hnone _ List.mem_cons_self
    · by_cases hsome : ∃ x ∈ course, x.succeeded = true
      · exact hrest.ascending hsome
      · have hnone : ∀ x ∈ course, x.succeeded = false := by
          simpa using hsome
        rw [hrest.unchanged hnone]
        exact Engine.ascending_of_sortedSet hchange hs

/-- The instances of a handle stay texts while the shifts are carried out. -/
theorem texts (hc : Carries h shifts course outcome h') (hi : Texts h.instances)
    (hw : Texts wanted) (ht : ∀ shift ∈ shifts, shift.Toward wanted) : Texts h'.instances := by
  intro d hd
  rcases (((hc.follows hi hw ht).instances d).mp hd).1 with hcurrent | hgained
  · exact hi d hcurrent
  · exact hw d ((hc.heading ht).mem_of_gained hgained)

end Carries

namespace Request

/-- A call that moves targets fails and leaves the store alone, or succeeds and makes its change. -/
theorem acknowledge_cases {call : Cloud → Handle → List Document → Reply Unit}
    {change : List Document → List Document → List Document}
    (hcall : Cloud.ChangesTargets call change) (cloud : Cloud) (h : Handle)
    (batch : List Document) :
    (∃ fault, (acknowledge h (call cloud h batch)).1 = .error fault ∧
        (acknowledge h (call cloud h batch)).2.store = cloud.store) ∨
      ((acknowledge h (call cloud h batch)).1 = .ok h ∧
        (acknowledge h (call cloud h batch)).2.store =
          cloud.store.withTargets h.arn (fun targets => change targets batch)) := by
  cases hc : call cloud h batch with
  | mk outcome cloud' =>
    rcases hcall.cases hc with ⟨-, ⟨fault, rfl⟩, hs, -⟩ | ⟨rfl, hs, -⟩
    · exact Or.inl ⟨fault, rfl, hs⟩
    · exact Or.inr ⟨rfl, hs⟩

/-- A cloud refuses a change of targets, or carries it out. -/
theorem answer_shift_cases (cloud : Cloud) (h : Handle) (shift : Shift) :
    (∃ fault, ((shift.request h).answer cloud).1 = .error fault ∧
        ((shift.request h).answer cloud).2.store = cloud.store) ∨
      (((shift.request h).answer cloud).1 = .ok h ∧
        ((shift.request h).answer cloud).2.store =
          cloud.store.withTargets h.arn (fun targets => shift.apply targets)) := by
  cases shift with
  | register batch => exact acknowledge_cases Cloud.register_changesTargets cloud h batch
  | deregister batch => exact acknowledge_cases Cloud.deregister_changesTargets cloud h batch

end Request

section Targets

variable {cloud last : Cloud} {targets wanted : List Document}

/-- What a change of targets leaves is what stands after it. -/
theorem targets_answer_shift {shift : Shift} {h : Handle}
    (hg : Ledger.get? h.arn cloud.targets = some targets) (ht : Texts targets) (hw : Texts wanted)
    (hs : shift.Toward wanted) :
    ∃ targets', Ledger.get? h.arn ((shift.request h).answer cloud).2.targets = some targets' ∧
      ∀ d, d ∈ targets' ↔ Standing targets [Exchange.on (cloud, shift.request h)] d := by
  rcases Request.answer_shift_cases cloud h shift with ⟨fault, he, hstore⟩ | ⟨he, hstore⟩
  · have hkept := Cloud.targets_of_store hstore
    exact ⟨targets, hkept ▸ hg, fun d => by simp [Exchange.on, he, Standing]⟩
  · refine ⟨shift.apply targets, ?_, fun d => ?_⟩
    · have hput : ((shift.request h).answer cloud).2.targets =
          (cloud.store.withTargets h.arn fun targets => shift.apply targets).targets := by
        rw [← hstore, Cloud.targets_store]
      simp [hput, hg]
    · rw [Exchange.on, he]
      exact mem_apply_iff ht hw hs h h d

/-- After changes of targets, made one after the other on a cloud, the targets are what stands. -/
theorem targets_inTurn {arn : String} {xs : List (Cloud × Request)}
    (hx : ∀ x ∈ xs, ∃ (shift : Shift) (h : Handle), x.2 = shift.request h ∧ h.arn = arn ∧
      shift.Toward wanted)
    (hturn : InTurn cloud xs last) (hg : Ledger.get? arn cloud.targets = some targets)
    (ht : Texts targets) (hw : Texts wanted) :
    ∃ targets', Ledger.get? arn last.targets = some targets' ∧
      ∀ d, d ∈ targets' ↔ Standing targets (xs.map Exchange.on) d := by
  induction xs generalizing cloud targets with
  | nil =>
    obtain rfl : last = cloud := hturn
    exact ⟨targets, hg, fun d => standing_nil.symm⟩
  | cons x rest ih =>
    have hheading : Heading wanted ((x :: rest).map Exchange.on) := by
      intro y hy
      obtain ⟨z, hz, rfl⟩ := List.mem_map.mp hy
      obtain ⟨shift, h, he, -, hs⟩ := hx z hz
      exact ⟨shift, by rw [Exchange.on, he, Exchange.shift?_request], hs⟩
    obtain ⟨shift, h, he, rfl, hs⟩ := hx x List.mem_cons_self
    obtain ⟨met, request⟩ := x
    obtain rfl : request = shift.request h := he
    obtain ⟨rfl, hturn⟩ := hturn
    obtain ⟨next, hnext, hmem⟩ := targets_answer_shift hg ht hw hs
    have htexts : Texts next := by
      intro d hd
      rcases ((hmem d).mp hd).1 with htarget | hgained
      · exact ht d htarget
      · refine hw d (hheading.mem_of_gained (d := d) ?_)
        rw [List.map_cons, List.flatMap_cons]
        exact List.mem_append_left _ (by simpa using hgained)
    obtain ⟨targets', hlast, hall⟩ :=
      ih (fun y hy => hx y (List.mem_cons_of_mem _ hy)) hturn hnext htexts
    refine ⟨targets', hlast, fun d => ?_⟩
    rw [hall d, List.map_cons, standing_cons hheading (hmem d)]

end Targets

end IngressControl
