import IngressControl.Proofs.Outcome
import IngressControl.Proofs.Texts
import IngressControl.Source

/-! Node ports as services declare them. Of the services with a key the first one counts, and of its
ports the first one that is asked for and has a node port, whatever other services and ports there
are. What is asked for by a number is never found by a name, nor the other way round. -/

namespace IngressControl.Service

/-- A value that may be missing; null stands in its place. -/
def maybe {α : Type} (write : α → Document) (value : Option α) : Document :=
  value.elim .null write

structure Port where
  number : Option Int := none
  name : Option String := none
  nodePort : Option Int := none
deriving DecidableEq

/-- A document declares a port. What is missing is left out or null. -/
structure Port.DeclaredBy (d : Document) (port : Port) : Prop where
  number : d.field "port" = .ok (maybe .int port.number)
  name : d.field "name" = .ok (maybe .string port.name)
  nodePort : d.field "nodePort" = .ok (maybe .int port.nodePort)

structure Declaration where
  ns : Option String := none
  name : String
  type : Option String := none
  ports : List Port := []
deriving DecidableEq

/-- The key under which a service is found: its name behind its namespace, if it has one. -/
def Declaration.key (service : Declaration) : String :=
  if service.ns.getD "" = "" then service.name else service.ns.getD "" ++ "/" ++ service.name

structure Declaration.NamedBy (metadata : Document) (service : Declaration) : Prop where
  ns : metadata.field "namespace" = .ok (maybe .string service.ns)
  name : (metadata.field? "name").map (fun found => found.getD (.string "")) =
    .ok (.string service.name)

structure Declaration.ExposedBy (spec : Document) (service : Declaration) : Prop where
  type : spec.field "type" = .ok (maybe .string service.type)
  ports : ∃ list items, spec.field "ports" = .ok list ∧ list.elementsOrNone = .ok items ∧
    List.Forall₂ Port.DeclaredBy items service.ports

/-- A document declares a service. Void metadata and a void spec say nothing. -/
structure Declaration.DeclaredBy (d : Document) (service : Declaration) : Prop where
  metadata : ∃ metadata, d.field "metadata" = .ok metadata ∧ service.NamedBy metadata.orEmpty
  spec : ∃ spec, d.field "spec" = .ok spec ∧ service.ExposedBy spec.orEmpty

inductive Target
  | number (n : Int)
  | name (s : String)
deriving DecidableEq

def Target.document : Target → Document
  | number n => .int n
  | name s => .string s

/-- A port is the one that is asked for: it has the number, or it has the name. -/
def Port.Matches (target : Target) (port : Port) : Prop :=
  match target with
  | .number n => port.number = some n
  | .name s => port.name = some s

instance (target : Target) (port : Port) : Decidable (port.Matches target) :=
  match target with
  | .number n => decEq port.number (some n)
  | .name s => decEq port.name (some s)

def Port.offer? (target : Target) (port : Port) : Option Int :=
  if port.Matches target then port.nodePort else none

def Declaration.resolve (service : Declaration) (key : String) (target : Target) :
    Except Fault Int :=
  if service.type = some nodePortType then
    match service.ports.findSome? (Port.offer? target) with
    | some n => .ok n
    | none => .error (.portMissing target.document.display key)
  else .error (.serviceType key)

def resolve (services : List Declaration) (key : String) (target : Target) : Except Fault Int :=
  match services.find? (fun service => service.key = key) with
  | none => .error (.serviceMissing key)
  | some service => service.resolve key target

/-- A service is the first one with a key. -/
def First (services : List Declaration) (key : String) (service : Declaration) : Prop :=
  ∃ before after, services = before ++ service :: after ∧ service.key = key ∧
    ∀ other ∈ before, other.key ≠ key

structure Resolves (services : List Declaration) (key : String) (target : Target)
    (outcome : Except Fault Int) : Prop where
  missing : outcome = .error (.serviceMissing key) ↔ ∀ service ∈ services, service.key ≠ key
  type : outcome = .error (.serviceType key) ↔
    ∃ service, First services key service ∧ service.type ≠ some nodePortType
  found : ∀ n, outcome = .ok n ↔
    ∃ service, First services key service ∧ service.type = some nodePortType ∧
      ∃ before port after, service.ports = before ++ port :: after ∧ port.Matches target ∧
        port.nodePort = some n ∧ ∀ other ∈ before, other.Matches target → other.nodePort = none
  unfound : outcome = .error (.portMissing target.document.display key) ↔
    ∃ service, First services key service ∧ service.type = some nodePortType ∧
      ∀ port ∈ service.ports, port.Matches target → port.nodePort = none
  only : outcome = .error (.serviceMissing key) ∨ outcome = .error (.serviceType key) ∨
    (∃ n, outcome = .ok n) ∨ outcome = .error (.portMissing target.document.display key)
  /-- A port without a node port hides none behind it. -/
  unhidden : ∀ service, First services key service → service.type = some nodePortType →
    ∀ port ∈ service.ports, port.Matches target → port.nodePort ≠ none → ∃ n, outcome = .ok n

section Declared

variable {target : Target} {port : Port} {service : Declaration} {d : Document}

/-- A number in a declaration is the same as the target only if the target is a number. -/
theorem same_maybe_int (value : Option Int) (target : Target) :
    (maybe .int value).same target.document =
      match target with
      | .number n => decide (value = some n)
      | .name _ => false := by
  cases value with
  | none => cases target <;> simp [maybe, Target.document, Document.same, Document.quantity?]
  | some m =>
    cases target with
    | number n =>
      simp [maybe, Target.document, Document.same, Document.quantity?,
        Numeral.Quantity.same_ofInt]
    | name s => simp [maybe, Target.document, Document.same, Document.quantity?]

/-- A text in a declaration is the same as the target only if the target is a name. -/
theorem same_maybe_string (value : Option String) (target : Target) :
    (maybe .string value).same target.document =
      match target with
      | .number _ => false
      | .name s => decide (value = some s) := by
  cases value with
  | none => cases target <;> simp [maybe, Target.document, Document.same, Document.quantity?]
  | some t =>
    cases target with
    | number n => simp [maybe, Target.document, Document.same, Document.quantity?]
    | name s =>
      rw [Bool.eq_iff_iff, decide_eq_true_iff]
      exact (Document.same_string_iff _ s).trans (by simp [maybe])

/-- Numbers are compared with numbers and names with names. -/
theorem portMatches_eq (h : port.DeclaredBy d) :
    portMatches target.document d = .ok (decide (port.Matches target)) := by
  rw [portMatches, h.number, h.name]
  change Except.ok ((maybe .int port.number).same target.document ||
    (maybe .string port.name).same target.document) = _
  rw [same_maybe_int, same_maybe_string]
  -- of the two comparisons the one with the other kind of value is always false
  cases target with
  | number n => rw [Bool.or_false]; rfl
  | name s => rw [Bool.false_or]; rfl

theorem firstNodePort_eq {items : List Document} {ports : List Port}
    (h : List.Forall₂ Port.DeclaredBy items ports) :
    firstNodePort target.document items = .ok (ports.findSome? (Port.offer? target)) := by
  induction h with
  | nil => rfl
  | @cons d port items ports hport _ ih =>
    rw [firstNodePort, portMatches_eq hport, hport.nodePort, List.findSome?_cons, Port.offer?]
    by_cases hm : port.Matches target
    · rw [decide_eq_true hm, if_pos hm]
      cases port.nodePort with
      | none => exact ih
      | some n => rfl
    · rw [decide_eq_false hm, if_neg hm]
      exact ih

/-- The key of a declared service is its namespace and name. -/
theorem objectKey_eq (h : service.DeclaredBy d) : objectKey d = .ok (.string service.key) := by
  obtain ⟨metadata, hmetadata, hnamed⟩ := h.metadata
  obtain ⟨found, hfound, hname⟩ := map_eq_ok hnamed.name
  rw [objectKey, hmetadata]
  change (metadata.orEmpty.field? "name" >>= fun name => metadata.orEmpty.field "namespace" >>=
    fun ns => Except.ok (if ns.isVoid then name.getD (.string "") else
      .string (ns.display ++ "/" ++ (name.getD (.string "")).display))) = _
  rw [hfound, hnamed.ns]
  change Except.ok (if (maybe .string service.ns).isVoid then found.getD (.string "") else
    .string ((maybe .string service.ns).display ++ "/" ++ (found.getD (.string "")).display)) = _
  rw [hname, Declaration.key]
  cases service.ns with
  | none => rfl
  | some ns =>
    change Except.ok (if ns.isEmpty then _ else Document.string (ns ++ "/" ++ service.name)) = _
    by_cases hempty : ns = ""
    · rw [hempty]
      rfl
    · have hfull : ns.isEmpty = false := by simpa using hempty
      simp [hfull, hempty]

/-- The first service with a key is the one that is found. -/
theorem firstWithKey_eq {items : List Document} {services : List Declaration}
    (h : List.Forall₂ Declaration.DeclaredBy items services) (key : String) :
    (services.find? (fun service => service.key = key) = none ∧
        Source.firstWithKey key items = .ok none) ∨
      ∃ service d, services.find? (fun service => service.key = key) = some service ∧
        service.DeclaredBy d ∧ Source.firstWithKey key items = .ok (some d) := by
  induction h with
  | nil => exact Or.inl ⟨rfl, rfl⟩
  | @cons d service items services hservice _ ih =>
    have hsame : (Document.string service.key).same (.string key) = decide (service.key = key) := by
      rw [Bool.eq_iff_iff, Document.same_string_iff, Document.string.injEq, decide_eq_true_iff]
    simp only [Source.firstWithKey, objectKey_eq hservice, hsame, List.find?_cons]
    by_cases hkey : service.key = key
    · exact Or.inr ⟨service, d, by simp [hkey], hservice, by simp [hkey]⟩
    · simpa [hkey] using ih

/-- The search reads of the services what they declare. -/
theorem nodePort_eq {source : Source} {items : List Document} {services : List Declaration}
    (hlist : source.list = .ok items)
    (h : List.Forall₂ Declaration.DeclaredBy items services) (key : String) (target : Target) :
    nodePort source key target.document = resolve services key target := by
  have hget : source.get? key = Source.firstWithKey key items := by
    rw [Source.get?, hlist]
    rfl
  rw [nodePort, hget, resolve]
  rcases firstWithKey_eq h key with ⟨hfind, hfirst⟩ | ⟨service, d, hfind, hservice, hfirst⟩
  · rw [hfind, hfirst]
    rfl
  · obtain ⟨spec, hspec, hexposed⟩ := hservice.spec
    obtain ⟨list, ports, hfield, helements, hports⟩ := hexposed.ports
    have htype : (maybe .string service.type).same (.string nodePortType) =
        decide (service.type = some nodePortType) := same_maybe_string service.type (.name _)
    rw [hfind, hfirst]
    change (d.field "spec" >>= fun spec => spec.orEmpty.field "type" >>= fun type =>
      if !type.same (.string nodePortType) then .error (.serviceType key) else
        spec.orEmpty.field "ports" >>= fun list => list.elementsOrNone >>= fun ports =>
          firstNodePort target.document ports >>= fun found => match found with
            | some port => Except.ok port
            | none => .error (.portMissing target.document.display key)) =
      service.resolve key target
    rw [hspec]
    change (spec.orEmpty.field "type" >>= _) = _
    rw [hexposed.type]
    change (if !(maybe .string service.type).same (.string nodePortType) then _ else _) = _
    rw [htype, hfield, Declaration.resolve]
    by_cases ht : service.type = some nodePortType
    · rw [decide_eq_true ht, if_pos ht]
      change (list.elementsOrNone >>= _) = _
      rw [helements]
      change (firstNodePort target.document ports >>= _) = _
      rw [firstNodePort_eq hports]
      rfl
    · rw [decide_eq_false ht, if_neg ht]
      rfl

end Declared

section Found

variable {services : List Declaration} {key : String} {target : Target} {ports : List Port}

/-- A service is the first with a key exactly where the search finds it. -/
theorem first_iff {service : Declaration} : First services key service ↔
    services.find? (fun service => service.key = key) = some service := by
  simp only [List.find?_eq_some_iff_append, First, decide_eq_true_eq, Bool.not_eq_true',
    decide_eq_false_iff_not]
  constructor
  · rintro ⟨before, after, hsplit, hkey, hbefore⟩
    exact ⟨hkey, before, after, hsplit, hbefore⟩
  · rintro ⟨hkey, before, after, hsplit, hbefore⟩
    exact ⟨before, after, hsplit, hkey, hbefore⟩

theorem offer?_eq_none_iff {port : Port} :
    port.offer? target = none ↔ (port.Matches target → port.nodePort = none) := by
  rw [Port.offer?]
  split <;> simp_all

/-- A port offers a node port if it matches the target and has one. -/
theorem offer?_eq_some_iff {port : Port} {n : Int} :
    port.offer? target = some n ↔ port.Matches target ∧ port.nodePort = some n := by
  rw [Port.offer?]
  split <;> simp_all

/-- The first port that is asked for and has a node port is the one that is found. -/
theorem findSome?_offer_eq_some_iff {n : Int} :
    ports.findSome? (Port.offer? target) = some n ↔
      ∃ before port after, ports = before ++ port :: after ∧ port.Matches target ∧
        port.nodePort = some n ∧
        ∀ other ∈ before, other.Matches target → other.nodePort = none := by
  simp only [List.findSome?_eq_some_iff, offer?_eq_some_iff, offer?_eq_none_iff, and_assoc]

/-- No port is found exactly if every port that matches lacks a node port. -/
theorem findSome?_offer_eq_none_iff :
    ports.findSome? (Port.offer? target) = none ↔
      ∀ port ∈ ports, port.Matches target → port.nodePort = none := by
  simp only [List.findSome?_eq_none_iff, offer?_eq_none_iff]

theorem resolve_cases (services : List Declaration) (key : String) (target : Target) :
    ((∀ service ∈ services, service.key ≠ key) ∧
        resolve services key target = .error (.serviceMissing key)) ∨
      ∃ service, First services key service ∧
        resolve services key target = service.resolve key target := by
  rw [resolve]
  cases hfind : services.find? (fun service => service.key = key) with
  | none => exact Or.inl ⟨by simpa using hfind, rfl⟩
  | some service => exact Or.inr ⟨service, first_iff.mpr hfind, rfl⟩

/-- Only one service is the first one with a key. -/
theorem First.unique {service other : Declaration} (h : First services key service)
    (h' : First services key other) : service = other :=
  Option.some.inj ((first_iff.mp h).symm.trans (first_iff.mp h'))

/-- What holds of the first service of a key may be asked of that service alone. -/
theorem exists_first_iff {service : Declaration} (h : First services key service)
    {P : Declaration → Prop} : (∃ other, First services key other ∧ P other) ↔ P service := by
  constructor
  · rintro ⟨other, hother, hp⟩
    exact h.unique hother ▸ hp
  · exact fun hp => ⟨service, h, hp⟩

theorem First.key_eq {service : Declaration} (h : First services key service) :
    service ∈ services ∧ service.key = key := by
  obtain ⟨before, after, rfl, hkey, -⟩ := h
  exact ⟨by simp, hkey⟩

namespace Declaration

variable {service : Declaration}

theorem resolve_eq_serviceType_iff :
    service.resolve key target = .error (.serviceType key) ↔ service.type ≠ some nodePortType := by
  rw [resolve]
  by_cases ht : service.type = some nodePortType
  · cases service.ports.findSome? (Port.offer? target) <;> simp [ht]
  · simp [ht]

theorem resolve_eq_ok_iff {n : Int} : service.resolve key target = .ok n ↔
    service.type = some nodePortType ∧
      service.ports.findSome? (Port.offer? target) = some n := by
  rw [resolve]
  by_cases ht : service.type = some nodePortType
  · cases service.ports.findSome? (Port.offer? target) <;> simp [ht]
  · simp [ht]

/-- The port is missing exactly for a service of the right type whose ports offer none. -/
theorem resolve_eq_portMissing_iff :
    service.resolve key target = .error (.portMissing target.document.display key) ↔
      service.type = some nodePortType ∧
        service.ports.findSome? (Port.offer? target) = none := by
  rw [resolve]
  by_cases ht : service.type = some nodePortType
  · cases service.ports.findSome? (Port.offer? target) <;> simp [ht]
  · simp [ht]

theorem resolve_cases (service : Declaration) (key : String) (target : Target) :
    service.resolve key target = .error (.serviceType key) ∨
      (∃ n, service.resolve key target = .ok n) ∨
        service.resolve key target = .error (.portMissing target.document.display key) := by
  rw [resolve]
  split
  · split
    · exact Or.inr (Or.inl ⟨_, rfl⟩)
    · exact Or.inr (Or.inr rfl)
  · exact Or.inl rfl

end Declaration

theorem resolves_resolve (services : List Declaration) (key : String) (target : Target) :
    Resolves services key target (resolve services key target) := by
  rcases resolve_cases services key target with ⟨hothers, heq⟩ | ⟨service, hfirst, heq⟩
  · have hnot (service : Declaration) : ¬ First services key service := by
      intro hfirst
      obtain ⟨hmem, hkey⟩ := hfirst.key_eq
      exact hothers service hmem hkey
    rw [heq]
    refine ⟨iff_of_true rfl hothers, ?_, ?_, ?_, Or.inl rfl, ?_⟩
    · simp [hnot]
    · simp [hnot]
    · simp [hnot]
    · exact fun service hfirst => absurd hfirst (hnot service)
  · obtain ⟨hmem, hkey⟩ := hfirst.key_eq
    have hcases := service.resolve_cases key target
    rw [heq]
    refine ⟨iff_of_false ?_ ?_, ?_, fun n => ?_, ?_, Or.inr hcases, ?_⟩
    · rcases hcases with h | ⟨n, h⟩ | h <;> simp [h]
    · exact fun hothers => hothers service hmem hkey
    · rw [exists_first_iff hfirst, Declaration.resolve_eq_serviceType_iff]
    · rw [exists_first_iff hfirst, ← findSome?_offer_eq_some_iff, Declaration.resolve_eq_ok_iff]
    · rw [exists_first_iff hfirst, ← findSome?_offer_eq_none_iff,
        Declaration.resolve_eq_portMissing_iff]
    · intro other hother htype port hport hmatch hsome
      obtain rfl := hother.unique hfirst
      rcases hcases with h | hfound | h
      · exact absurd htype (Declaration.resolve_eq_serviceType_iff.mp h)
      · exact hfound
      · -- the port that is there could not be left out
        have hnone := findSome?_offer_eq_none_iff.mp (Declaration.resolve_eq_portMissing_iff.mp h).2
        exact absurd (hnone port hport hmatch) hsome

end Found

end IngressControl.Service

namespace IngressControl.Shop
open Service (Declaration Target Resolves)

def sharedPorts : List Document :=
  [.object [("port", .int 80), ("name", .string "http")],
    .object [("port", .int 8080), ("name", .string "80"), ("nodePort", .int 30081)],
    .object [("port", .int 80), ("name", .string "http"), ("nodePort", .int 30080)]]

def sharedKey : List Document :=
  [.object [("metadata", .object [("name", .string "web"), ("namespace", .string "shop")]),
      ("spec", .object [("type", .string "NodePort"), ("ports", .array sharedPorts)])],
    .object [("metadata", .object [("name", .string "shop/web"), ("namespace", .null)])]]

def declaredPorts : List Service.Port :=
  [{ number := some 80, name := some "http" },
    { number := some 8080, name := some "80", nodePort := some 30081 },
    { number := some 80, name := some "http", nodePort := some 30080 }]

def declaredServices : List Declaration :=
  [{ ns := some "shop", name := "web", type := some "NodePort", ports := declaredPorts },
    { name := "shop/web" }]

end IngressControl.Shop
