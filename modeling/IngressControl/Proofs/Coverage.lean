import IngressControl.Proofs.Routes
import IngressControl.Proofs.Runs

/-! What the schema of ingresses vouches for. Everything that is read of an ingress that meets the
schema is there and of the right kind, so that nothing but what the schema reports, what is checked
behind it and what the search for a node port reports can keep a load balancer from being asked for.
-/

namespace IngressControl

def Fault.isDeclaration : Fault → Bool
  | unnamedIngress => true
  | ingressNamespace _ => true
  | invalidIngress _ => true
  | scheme _ _ => true
  | noBackends => true
  | _ => false

def Fault.isServiceResolution : Fault → Bool
  | serviceMissing _ => true
  | serviceType _ => true
  | portMissing _ _ => true
  | _ => false

namespace Ingress

section Coverage

variable {d : Document} {resolve : String → Document → Except Fault Int}

theorem meets_metadata (hm : Schema.Meets Schema.ingress d) :
    Schema.Meets Schema.metadata (.object (metadata d)) := by
  obtain ⟨fields, rfl⟩ := hm.object (.head _)
  obtain ⟨v, hv⟩ := hm.exists_field (.tail _ (.head _)) (.head _)
  have hmetadata := hm.property (.tail _ (.tail _ (.head _))) (.head _) hv
  obtain ⟨entries, rfl⟩ := hmetadata.object (.head _)
  have heq : metadata (.object fields) = entries := by
    simp only [metadata, hv]
  rw [heq]
  exact hmetadata

/-- What meets the schema has an identity. -/
theorem exists_identity (hm : Schema.Meets Schema.ingress d) : ∃ id, identity d = .ok id := by
  have hmetadata := meets_metadata hm
  obtain ⟨v, hv⟩ := hmetadata.exists_field (.tail _ (.head _)) (.head _)
  obtain ⟨name, rfl, hname⟩ :=
    (hmetadata.property (.tail _ (.tail _ (.head _))) (.head _) hv).text
  have hempty : name.isEmpty = false := by simpa using hname
  unfold identity
  simp only [hv, hempty, Bool.false_eq_true, if_false]
  cases hns : Ledger.get? "namespace" (metadata d) with
  | none => exact ⟨_, rfl⟩
  | some w =>
    obtain ⟨ns, rfl, -⟩ :=
      (hmetadata.property (.tail _ (.tail _ (.head _))) (.tail _ (.head _)) hns).text
    simp only [Option.getD_some]
    split <;> exact ⟨_, rfl⟩

/-- What meets the schema routes to services of its own namespace. -/
theorem delivers_routes {id : Identity} (hm : Schema.Meets Schema.ingress d)
    (hid : identity d = .ok id) : Delivers (fun rs => ∀ r ∈ rs, r.Proper id.ns) (routes d) := by
  unfold routes
  rw [hid]
  refine (delivers_backends hm).bind fun bs hbs => ?_
  refine (Delivers.mapM fun b hb => delivers_route (hbs b hb) id.ns).bind fun all hall => ?_
  exact ⟨_, rfl, fun r hr => hall r ((distinct_spec all).1 r hr)⟩

/-- A fault is one of the declaration, or the one that a route resolved to. -/
def Accounted (d : Document) (resolve : String → Document → Except Fault Int) (fault : Fault) :
    Prop :=
  fault.isDeclaration = true ∨
    ∃ rs, routes d = .ok rs ∧ ∃ r ∈ rs, resolve r.serviceKey r.servicePort = .error fault

theorem exists_of_resolved {rs : List Route} {fault : Fault}
    (h : rs.mapM (resolved resolve) = .error fault) :
    ∃ r ∈ rs, resolve r.serviceKey r.servicePort = .error fault := by
  obtain ⟨r, hr, hfault⟩ := mapM_eq_error h
  rcases bind_eq_error hfault with hresolve | ⟨n, -, hnone⟩
  · exact ⟨r, hr, hresolve⟩
  · cases hnone

theorem accounted_of_error {instances : List Document} {fault : Fault}
    (h : desiredSpec d resolve instances = .error fault) : Accounted d resolve fault := by
  unfold desiredSpec at h
  cases hreport : Schema.ingressReport d with
  | some violations =>
    rw [hreport] at h
    obtain rfl := Except.error.inj h
    exact Or.inl rfl
  | none =>
    have hm := (Schema.report_eq_none Schema.ingress d).mp hreport
    obtain ⟨id, hid⟩ := exists_identity hm
    obtain ⟨rs, hrs, -⟩ := delivers_routes hm hid
    rw [hreport] at h
    dsimp only at h
    split at h
    · obtain rfl := Except.error.inj h
      exact Or.inl rfl
    · rcases bind_eq_error h with hnone | ⟨rs', hrs', h⟩
      · cases hrs.symm.trans hnone
      rcases bind_eq_error h with hresolved | ⟨backends, -, h⟩
      · exact Or.inr ⟨rs', hrs', exists_of_resolved hresolved⟩
      · -- behind the search for node ports only routes can be missing
        split at h
        · obtain rfl := Except.error.inj h
          exact Or.inl rfl
        · cases h

/-- A load balancer is asked for exactly if the ingress meets the schema, names a scheme that there
is and has routes, each of which resolves. -/
theorem exists_desiredSpec_iff {instances : List Document} :
    (∃ spec, desiredSpec d resolve instances = .ok spec) ↔
      Schema.ingressReport d = none ∧ noted d schemeAnnotation defaultScheme ∈ validSchemes ∧
        ∃ rs, routes d = .ok rs ∧ rs ≠ [] ∧
          ∀ r ∈ rs, ∃ n, resolve r.serviceKey r.servicePort = .ok n := by
  constructor
  · rintro ⟨spec, h⟩
    unfold desiredSpec at h
    cases hreport : Schema.ingressReport d with
    | some violations =>
      rw [hreport] at h
      cases h
    | none =>
      rw [hreport] at h
      dsimp only at h
      split at h
      · cases h
      · rename_i hscheme
        obtain ⟨rs, hrs, h⟩ := bind_eq_ok h
        obtain ⟨backends, hbackends, h⟩ := bind_eq_ok h
        have hall := mapM_eq_ok_iff.mp hbackends
        split at h
        · cases h
        · rename_i hsome
          refine ⟨rfl, by simpa using hscheme, rs, hrs, ?_, fun r hr => ?_⟩
          · rintro rfl
            cases hall
            exact hsome rfl
          · obtain ⟨backend, -, hb⟩ := exists_right_of_forall₂ hall hr
            exact ⟨backend.nodePort, resolved_eq_ok hb⟩
  · rintro ⟨hreport, hscheme, rs, hrs, hne, hresolve⟩
    obtain ⟨backends, hbackends⟩ := exists_mapM (f := resolved resolve) fun r hr => by
      obtain ⟨n, hn⟩ := hresolve r hr
      exact ⟨⟨r.serviceKey, r.servicePort, n⟩, by rw [resolved, hn]; rfl⟩
    have hsome : backends.isEmpty = false := by
      have hlength := (mapM_eq_ok_iff.mp hbackends).length_eq
      rw [List.isEmpty_eq_false_iff, ← List.length_pos_iff, ← hlength]
      exact List.length_pos_iff.mpr hne
    have hvalid : validSchemes.contains (noted d schemeAnnotation defaultScheme) = true := by
      simpa using hscheme
    unfold resolved at hbackends
    unfold desiredSpec
    simp only [hreport, hvalid, hrs, Bind.bind, Except.bind] at hbackends ⊢
    simp only [hbackends, hsome]
    exact ⟨_, rfl⟩

/-- An ingress that the engine taints is faulty as a declaration, or the search for the node port of
one of its routes failed. -/
theorem accounted_of_tainted {services : Source} {instances : List Document}
    {previous : ResourceSet} {id : Identity}
    (h : (Engine.resourceOf services instances previous id d).tainted = true) :
    ∃ fault, (Engine.resourceOf services instances previous id d).error = some fault.message ∧
      Accounted d (Service.nodePort services) fault := by
  unfold Engine.resourceOf at h ⊢
  cases hspec : desiredSpec d (Service.nodePort services) instances with
  | ok desired =>
    rw [hspec] at h
    cases h
  | error fault => exact ⟨fault, rfl, accounted_of_error hspec⟩

/-- Validation covers what is extracted: with a resolver that only reports services and ports that
it did not find, nothing else can go wrong than what is reported of a declaration, and an ingress
that is well declared and whose routes resolve gets its load balancer. -/
theorem desiredSpec_covered (d : Document) (instances : List Document)
    (hresolve : ∀ key port fault, resolve key port = .error fault →
      fault.isServiceResolution = true) :
    (∀ fault, desiredSpec d resolve instances = .error fault →
        fault.isDeclaration = true ∨ fault.isServiceResolution = true) ∧
      (Schema.ingressReport d = none → ∃ id rs, identity d = .ok id ∧ routes d = .ok rs ∧
        ∀ r ∈ rs, r.Proper id.ns) ∧
      ((∃ spec, desiredSpec d resolve instances = .ok spec) ↔
        Schema.ingressReport d = none ∧ noted d schemeAnnotation defaultScheme ∈ validSchemes ∧
          ∃ rs, routes d = .ok rs ∧ rs ≠ [] ∧
            ∀ r ∈ rs, ∃ n, resolve r.serviceKey r.servicePort = .ok n) ∧
      ∀ services previous id,
        (Engine.resourceOf services instances previous id d).tainted = true →
        ∃ fault, (Engine.resourceOf services instances previous id d).error = some fault.message ∧
          Accounted d (Service.nodePort services) fault := by
  refine ⟨fun fault h => ?_, fun hreport => ?_, exists_desiredSpec_iff,
    fun _ _ _ => accounted_of_tainted⟩
  · rcases accounted_of_error h with hdeclared | ⟨rs, -, r, -, hfault⟩
    · exact Or.inl hdeclared
    · exact Or.inr (hresolve _ _ _ hfault)
  · have hm := (Schema.report_eq_none Schema.ingress d).mp hreport
    obtain ⟨id, hid⟩ := exists_identity hm
    obtain ⟨rs, hrs, hproper⟩ := delivers_routes hm hid
    exact ⟨id, rs, hid, hrs, hproper⟩

end Coverage

end Ingress

namespace Shop

def unfound (key : String) (_ : Document) : Except Fault Int := .error (.serviceMissing key)

def forked : Document :=
  .object [("metadata", .object [("name", .string "web"), ("namespace", .string "shop")]),
    ("spec", .object [("backend",
        .object [("serviceName", .string "web"), ("servicePort", .int 80)]),
      ("rules", .array [.object [("host", .string "shop"), ("http", .object [("paths", .array [
        .object [("backend", .object [("serviceName", .string "web"),
          ("servicePort", .string "admin")])]])])]])])]

/-- The ingress meets the schema, both routes are read, and only the service is missing. -/
theorem covered_without_service :
    (∀ key port fault, unfound key port = .error fault → fault.isServiceResolution = true) ∧
      Schema.ingressReport forked = none ∧
      (∃ id rs, Ingress.identity forked = .ok id ∧ Ingress.routes forked = .ok rs ∧
        ∀ r ∈ rs, r.Proper id.ns) ∧
      Ingress.desiredSpec forked unfound [] = .error (.serviceMissing "shop/web") := by
  have hunknown : ∀ key port fault, unfound key port = .error fault →
      fault.isServiceResolution = true := by
    intro key port fault h
    obtain rfl := Except.error.inj h
    rfl
  have hreport : Schema.ingressReport forked = none := by decide +kernel
  obtain ⟨-, hread, -, -⟩ := Ingress.desiredSpec_covered forked [] hunknown
  exact ⟨hunknown, hreport, hread hreport, by decide +kernel⟩

end Shop

end IngressControl
