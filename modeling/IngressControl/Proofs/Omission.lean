import IngressControl.Proofs.Conformance
import IngressControl.Proofs.Extraction

/-! Namespaces that are left out. An ingress that leaves out the default namespace asks for the same
load balancer as one that writes it. A service that leaves it out is another one for the routes. -/

namespace IngressControl

open Ingress (defaultNamespace)

/-- A namespace that is missing or written as the default one. -/
def Omissible (ns : Option Document) : Prop := ns = none ∨ ns = some (.string defaultNamespace)

/-- Objects that differ in their namespace at most, which is the default one if it is written. -/
inductive SameByDefault : Document → Document → Prop
  | same (d : Document) : SameByDefault d d
  | fields {fields fields' entries entries' : List (String × Document)}
      (metadata : Ledger.get? "metadata" fields = some (.object entries))
      (metadata' : Ledger.get? "metadata" fields' = some (.object entries'))
      (others : ∀ key, key ≠ "metadata" → Ledger.get? key fields = Ledger.get? key fields')
      (parts : ∀ key, key ≠ "namespace" → Ledger.get? key entries = Ledger.get? key entries')
      (ns : Omissible (Ledger.get? "namespace" entries))
      (ns' : Omissible (Ledger.get? "namespace" entries')) :
      SameByDefault (.object fields) (.object fields')

namespace Schema

/-- The schema of texts that are not empty is met by the default namespace. -/
theorem meets_defaultNamespace : Meets nonEmptyText (.string defaultNamespace) := by
  rw [meets_iff_keywords, nonEmptyText]
  simp only [List.forall_mem_cons]
  refine ⟨typeViolations_eq_nil.mpr ⟨.string, List.mem_singleton_self _, rfl⟩, ?_,
    List.forall_mem_nil _⟩
  rw [lengthViolations_eq_nil, Numeral.Quantity.less_ofInt]
  decide

/-- Metadata that differ in an omissible namespace at most meet their schema, or neither do. -/
theorem meets_metadata_of_parts {entries entries' : List (String × Document)}
    (hm : Meets metadata (.object entries))
    (hparts : ∀ key, key ≠ "namespace" → Ledger.get? key entries = Ledger.get? key entries')
    (hns : Omissible (Ledger.get? "namespace" entries')) : Meets metadata (.object entries') := by
  obtain ⟨hrequired, hproperties⟩ := meets_object_iff.mp hm
  refine meets_object_iff.mpr ⟨fun key hk => ?_, fun entry he v hv => ?_⟩
  · obtain rfl := List.mem_singleton.mp hk
    rw [← hparts "name" (by decide)]
    exact hrequired "name" hk
  · by_cases hkey : entry.1 = "namespace"
    · have hpart : entry.2 = nonEmptyText := by
        simp only [List.mem_cons, List.not_mem_nil, or_false] at he
        rcases he with rfl | rfl | rfl
        · rfl
        · rfl
        · exact absurd hkey (by decide)
      rw [hkey] at hv
      rcases hns with hns | hns
      · cases hns.symm.trans hv
      · obtain rfl := Option.some.inj (hns.symm.trans hv)
        rw [hpart]
        exact meets_defaultNamespace
    · rw [← hparts _ hkey] at hv
      exact hproperties entry he v hv

end Schema

namespace SameByDefault

variable {d d' : Document}

theorem flip (h : SameByDefault d d') : SameByDefault d' d := by
  cases h with
  | same => exact .same d
  | fields hm hm' hothers hparts hns hns' =>
    exact .fields hm' hm (fun key hk => (hothers key hk).symm) (fun key hk => (hparts key hk).symm)
      hns' hns

theorem field (h : SameByDefault d d') {key : String} (hk : key ≠ "metadata") :
    d.field key = d'.field key := by
  cases h with
  | same => rfl
  | fields _ _ hothers =>
    rw [Document.field, Document.field, Document.field?, Document.field?, hothers key hk]

/-- Leaving the default namespace out makes no ingress invalid. -/
theorem meets (h : SameByDefault d d') (hm : Schema.Meets Schema.ingress d) :
    Schema.Meets Schema.ingress d' := by
  cases h with
  | same => exact hm
  | @fields fields fields' entries entries' hmetadata hmetadata' hothers hparts hns hns' =>
    obtain ⟨hrequired, hproperties⟩ := Schema.meets_object_iff.mp hm
    refine Schema.meets_object_iff.mpr ⟨fun key hk => ?_, fun entry he v hv => ?_⟩
    · by_cases hkey : key = "metadata"
      · exact ⟨_, hkey ▸ hmetadata'⟩
      · rw [← hothers key hkey]
        exact hrequired key hk
    · by_cases hkey : entry.1 = "metadata"
      · have hpart : entry.2 = Schema.metadata := by
          simp only [List.mem_cons, List.not_mem_nil, or_false] at he
          rcases he with rfl | rfl
          · rfl
          · exact absurd hkey (by decide)
        rw [hkey] at hv
        obtain rfl := Option.some.inj (hmetadata'.symm.trans hv)
        have hold := hproperties entry he (.object entries) (hkey ▸ hmetadata)
        rw [hpart] at hold ⊢
        exact Schema.meets_metadata_of_parts hold hparts hns'
      · rw [← hothers _ hkey] at hv
        exact hproperties entry he v hv

theorem annotations (h : SameByDefault d d') : Ingress.annotations d = Ingress.annotations d' := by
  cases h with
  | same => rfl
  | fields hm hm' _ hparts =>
    simp only [Ingress.annotations, Ingress.metadata, hm, hm', hparts "annotations" (by decide)]

/-- The identity is that of the ingress which writes its namespace. -/
theorem identity (h : SameByDefault d d') : Ingress.identity d = Ingress.identity d' := by
  cases h with
  | same => rfl
  | fields hm hm' _ hparts hns hns' =>
    simp only [Ingress.identity, Ingress.metadata, hm, hm', hparts "name" (by decide)]
    rcases hns with hns | hns <;> rcases hns' with hns' | hns' <;> rw [hns, hns'] <;> rfl

theorem routes (h : SameByDefault d d') : Ingress.routes d = Ingress.routes d' := by
  rw [Ingress.routes, Ingress.routes, h.identity, Ingress.backends, Ingress.backends,
    h.field (by decide)]

/-- What an ingress asks for, it asks for as well with another namespace by default, and with every
resolver that finds the same node ports for its routes. -/
theorem desiredSpec (h : SameByDefault d d')
    {resolve resolve' : String → Document → Except Fault Int}
    (hr : Schema.Meets Schema.ingress d → ∀ rs, Ingress.routes d = .ok rs → ∀ r ∈ rs, ∀ n,
      resolve r.serviceKey r.servicePort = .ok n → resolve' r.serviceKey r.servicePort = .ok n)
    {instances : List Document} {spec : DesiredSpec}
    (hspec : Ingress.desiredSpec d resolve instances = .ok spec) :
    Ingress.desiredSpec d' resolve' instances = .ok spec := by
  obtain ⟨hreport, hscheme, -⟩ := Ingress.exists_desiredSpec_iff.mp ⟨spec, hspec⟩
  have hm := (Schema.report_eq_none Schema.ingress d).mp hreport
  have hm' := h.meets hm
  have htext (name byDefault : String) :
      Ingress.annotationText d name byDefault = Ingress.annotationText d' name byDefault := by
    rw [← Ingress.noted_eq hm, ← Ingress.noted_eq hm', Ingress.noted, Ingress.noted, h.annotations]
  have hpairs : Ingress.pairs d = Ingress.pairs d' := by
    have hroutes := h.routes
    rw [Ingress.routes_eq hm, Ingress.routes_eq hm'] at hroutes
    exact Except.ok.inj hroutes
  rw [Ingress.noted_eq hm] at hscheme
  rw [Ingress.desiredSpec_eq hm hscheme] at hspec
  obtain ⟨backends, hbackends, hspec⟩ := bind_eq_ok hspec
  have hresolved : (Ingress.pairs d').mapM (Ingress.resolved resolve') = .ok backends := by
    rw [← hpairs]
    refine mapM_eq_ok_of_imp (fun r hmem b hb => ?_) hbackends
    obtain ⟨hkey, hport, hn⟩ := Ingress.resolved_eq_ok_iff.mp hb
    exact Ingress.resolved_eq_ok_iff.mpr
      ⟨hkey, hport, hr hm _ (Ingress.routes_eq hm) r hmem b.nodePort hn⟩
  have hspecOf : Ingress.specOf d instances backends = Ingress.specOf d' instances backends := by
    simp only [Ingress.specOf, htext]
  rw [htext] at hscheme
  rw [Ingress.desiredSpec_eq hm' hscheme, hresolved]
  rw [hspecOf] at hspec
  exact hspec

end SameByDefault

/-! Services, of which the search for a node port takes the first one with a key. -/

namespace Service

/-- An object that has a key, but not the given one. -/
def Other (key : String) (s : Document) : Prop :=
  ∃ found, objectKey s = .ok (.string found) ∧ found ≠ key

theorem firstWithKey_of_other {key : String} {s : Document} (h : Other key s)
    (rest : List Document) :
    Source.firstWithKey key (s :: rest) = Source.firstWithKey key rest := by
  obtain ⟨found, hfound, hne⟩ := h
  have hnot : (Document.string found).same (.string key) = false := by
    rw [← Bool.not_eq_true, Document.same_string_iff, Document.string.injEq]
    exact hne
  simp only [Source.firstWithKey, hfound, hnot, Bool.false_eq_true, if_false]

/-- Services that are not found under a key may be others or none. -/
theorem nodePort_congr {key : String} {services services' : List Document}
    (h : List.Forall₂ (fun s s' => s = s' ∨ Other key s ∧ Other key s') services services')
    (target : Document) :
    nodePort (.objects services) key target = nodePort (.objects services') key target := by
  have hfirst : Source.firstWithKey key services = Source.firstWithKey key services' := by
    induction h with
    | nil => rfl
    | cons hs _ ih =>
      rcases hs with rfl | ⟨hother, hother'⟩
      · rw [Source.firstWithKey, Source.firstWithKey, ih]
      · rw [firstWithKey_of_other hother, firstWithKey_of_other hother', ih]
  have hget : (Source.objects services).get? key = (Source.objects services').get? key := hfirst
  rw [nodePort, nodePort, hget]

/-- No node port is found for a key if every service has another one. -/
theorem nodePort_of_others {key : String} {services : List Document}
    (h : ∀ s ∈ services, Other key s) (target : Document) :
    nodePort (.objects services) key target = .error (.serviceMissing key) := by
  have hget : (Source.objects services).get? key = .ok none := by
    change Source.firstWithKey key services = .ok none
    induction services with
    | nil => rfl
    | cons s rest ih =>
      obtain ⟨hs, hrest⟩ := List.forall_mem_cons.mp h
      rw [firstWithKey_of_other hs, ih hrest]
  rw [nodePort, hget]
  rfl

/-- A service as a cluster has it: with a name and perhaps a namespace, in which no slash stands. -/
inductive Named : Document → Prop
  | intro {fields entries : List (String × Document)} {name : String}
      (metadata : Ledger.get? "metadata" fields = some (.object entries))
      (named : Ledger.get? "name" entries = some (.string name)) (plain : '/' ∉ name.toList)
      (ns : ∀ v, Ledger.get? "namespace" entries = some v →
        ∃ ns, v = .string ns ∧ ns ≠ "" ∧ '/' ∉ ns.toList) : Named (.object fields)

/-- A text without a slash is no key with a namespace. -/
theorem bare_ne_key {name : String} (h : '/' ∉ name.toList) (ns other : String) :
    name ≠ ns ++ "/" ++ other := by
  rintro rfl
  simp at h

/-- A key tells its namespace, if no slash stands in its parts. -/
theorem ns_eq_of_key {ns name ns' name' : String} (hns : '/' ∉ ns.toList)
    (hname : '/' ∉ name.toList) (h : ns ++ "/" ++ name = ns' ++ "/" ++ name') : ns = ns' := by
  have hlist : ns.toList ++ '/' :: name.toList = ns'.toList ++ '/' :: name'.toList := by
    simpa using congrArg String.toList h
  exact String.toList_inj.mp ((List.append_cons_inj_of_notMem hns hname).mp hlist).1

section Keys

variable {fields entries : List (String × Document)} {name ns : String}

/-- Without a namespace the key of an object is its bare name. -/
theorem objectKey_bare (hm : Ledger.get? "metadata" fields = some (.object entries))
    (hname : Ledger.get? "name" entries = some (.string name))
    (hns : Ledger.get? "namespace" entries = none) :
    objectKey (.object fields) = .ok (.string name) := by
  simp only [objectKey, Document.field_of_some hm, Bind.bind, Except.bind, Document.orEmpty_object,
    Document.field?, Document.field_of_none hns, hname]
  rfl

theorem objectKey_written (hm : Ledger.get? "metadata" fields = some (.object entries))
    (hname : Ledger.get? "name" entries = some (.string name))
    (hns : Ledger.get? "namespace" entries = some (.string ns)) (hne : ns ≠ "") :
    objectKey (.object fields) = .ok (.string (ns ++ "/" ++ name)) := by
  have hwritten : (Document.string ns).isVoid = false := by simpa [Document.isVoid] using hne
  simp only [objectKey, Document.field_of_some hm, Bind.bind, Except.bind, Document.orEmpty_object,
    Document.field?, Document.field_of_some hns, hname, hwritten]
  rfl

/-- A service whose namespace is the default one or missing is no service of another namespace. -/
theorem other_of_omissible (hm : Ledger.get? "metadata" fields = some (.object entries))
    (hname : Ledger.get? "name" entries = some (.string name)) (hplain : '/' ∉ name.toList)
    (homissible : Omissible (Ledger.get? "namespace" entries)) (hns : ns ≠ defaultNamespace)
    (service : String) : Other (ns ++ "/" ++ service) (.object fields) := by
  rcases homissible with hnone | hsome
  · exact ⟨_, objectKey_bare hm hname hnone, bare_ne_key hplain ns service⟩
  · refine ⟨_, objectKey_written hm hname hsome (by decide), fun h => hns ?_⟩
    exact (ns_eq_of_key (by decide) hplain h).symm

end Keys

variable {s : Document}

/-- Where the default namespace is left out, services of other namespaces are as they were. -/
theorem Named.same_or_other (h : Named s) {s' : Document} (hs : SameByDefault s s') {ns : String}
    (hns : ns ≠ defaultNamespace) (service : String) :
    s = s' ∨ Other (ns ++ "/" ++ service) s ∧ Other (ns ++ "/" ++ service) s' := by
  cases hs with
  | same => exact Or.inl rfl
  | fields hm hm' _ hparts homissible homissible' =>
    obtain ⟨hmetadata, hname, hplain, -⟩ := h
    obtain rfl := Document.object.inj (Option.some.inj (hmetadata.symm.trans hm))
    have hname' := (hparts "name" (by decide)).symm.trans hname
    exact Or.inr ⟨other_of_omissible hm hname hplain homissible hns service,
      other_of_omissible hm' hname' hplain homissible' hns service⟩

/-- Every service can be written so that it is none of the default namespace. -/
theorem Named.exists_hidden (h : Named s) :
    ∃ s', SameByDefault s s' ∧ ∀ service, Other (defaultNamespace ++ "/" ++ service) s' := by
  obtain @⟨fields, entries, name, hm, hname, hplain, hns⟩ := h
  cases hnone : Ledger.get? "namespace" entries with
  | none =>
    exact ⟨.object fields, .same _, fun service =>
      ⟨name, objectKey_bare hm hname hnone, bare_ne_key hplain _ service⟩⟩
  | some v =>
    obtain ⟨ns, rfl, hne, hslash⟩ := hns v hnone
    by_cases hdefault : ns = defaultNamespace
    · subst hdefault
      set bare := Ledger.erase "namespace" entries
      have hm' := Ledger.get?_put_self "metadata" (.object bare) fields
      have hname' : Ledger.get? "name" bare = some (.string name) := by simp [bare, hname]
      have hnone' : Ledger.get? "namespace" bare = none := by simp [bare]
      refine ⟨_, .fields hm hm' (fun key hk => by simp [hk]) (fun key hk => by simp [bare, hk])
        (Or.inr hnone) (Or.inl hnone'), fun service => ⟨name, ?_, bare_ne_key hplain _ service⟩⟩
      exact objectKey_bare hm' hname' hnone'
    · refine ⟨.object fields, .same _, fun service =>
        ⟨_, objectKey_written hm hname hnone hne, fun h => hdefault ?_⟩⟩
      exact ns_eq_of_key hslash hplain h

end Service

namespace Ingress

/-- Without any namespace that is the default one, no service is found for an ingress in it. -/
theorem exists_unresolved {services : List Document} (hs : ∀ s ∈ services, Service.Named s) :
    ∃ services', List.Forall₂ SameByDefault services services' ∧ ∀ service target,
      Service.nodePort (.objects services') (defaultNamespace ++ "/" ++ service) target =
        .error (.serviceMissing (defaultNamespace ++ "/" ++ service)) := by
  have hhidden : ∃ services', List.Forall₂ SameByDefault services services' ∧
      ∀ s' ∈ services', ∀ service, Service.Other (defaultNamespace ++ "/" ++ service) s' := by
    induction services with
    | nil => exact ⟨[], .nil, nofun⟩
    | cons s rest ih =>
      obtain ⟨hfirst, hrest⟩ := List.forall_mem_cons.mp hs
      obtain ⟨s', hsame, hother⟩ := hfirst.exists_hidden
      obtain ⟨rest', hforall, hothers⟩ := ih hrest
      exact ⟨s' :: rest', .cons hsame hforall, List.forall_mem_cons.mpr ⟨hother, hothers⟩⟩
  obtain ⟨services', hforall, hothers⟩ := hhidden
  exact ⟨services', hforall, fun service target =>
    Service.nodePort_of_others (fun s' hs' => hothers s' hs' service) target⟩

/-- Services may be exchanged for others that no route of an ingress leads to either. -/
theorem desiredSpec_iff_of_others {d d' : Document} (hd : SameByDefault d d')
    {services services' : List Document}
    (hs : Schema.Meets Schema.ingress d → ∀ rs, routes d = .ok rs → ∀ r ∈ rs, List.Forall₂
      (fun s s' => s = s' ∨ Service.Other r.serviceKey s ∧ Service.Other r.serviceKey s')
      services services') (instances : List Document) (spec : DesiredSpec) :
    desiredSpec d' (Service.nodePort (.objects services')) instances = .ok spec ↔
      desiredSpec d (Service.nodePort (.objects services)) instances = .ok spec := by
  constructor
  · refine hd.flip.desiredSpec fun hm' rs hrs r hr n hn => ?_
    rw [Service.nodePort_congr (hs (hd.flip.meets hm') rs (hd.routes.trans hrs) r hr)]
    exact hn
  · refine hd.desiredSpec fun hm rs hrs r hr n hn => ?_
    rw [← Service.nodePort_congr (hs hm rs hrs r hr)]
    exact hn

/-- An ingress may leave out the default namespace without any effect. All services may leave it out
or write it without any effect on an ingress exactly if the ingress is in another namespace, or is
refused however the services are written. -/
theorem omission_unseen_iff (d : Document) (instances : List Document) {services : List Document}
    (hs : ∀ s ∈ services, Service.Named s) :
    (∀ d', SameByDefault d d' → identity d' = identity d ∧ ∀ resolve spec,
        desiredSpec d' resolve instances = .ok spec ↔ desiredSpec d resolve instances = .ok spec) ∧
      ((∀ d' services', SameByDefault d d' → List.Forall₂ SameByDefault services services' →
          ∀ spec, desiredSpec d' (Service.nodePort (.objects services')) instances = .ok spec ↔
            desiredSpec d (Service.nodePort (.objects services)) instances = .ok spec) ↔
        (∀ id, identity d = .ok id → id.ns ≠ defaultNamespace) ∨
          ∀ services', List.Forall₂ SameByDefault services services' → ∀ spec,
            desiredSpec d (Service.nodePort (.objects services')) instances ≠ .ok spec) := by
  refine ⟨fun d' hd => ⟨hd.identity.symm, fun resolve spec => ⟨?_, ?_⟩⟩, ?_, ?_⟩
  · exact hd.flip.desiredSpec fun _ _ _ _ _ _ hn => hn
  · exact hd.desiredSpec fun _ _ _ _ _ _ hn => hn
  · intro hall
    by_contra hneither
    simp only [not_or, not_forall, not_not] at hneither
    obtain ⟨⟨id, hid, hns⟩, services', hservices, spec, hspec⟩ := hneither
    have hspec := (hall d services' (.same d) hservices spec).mp hspec
    obtain ⟨bare, hbare, hmissing⟩ := exists_unresolved hs
    have hspec := (hall d bare (.same d) hbare spec).mpr hspec
    obtain ⟨hreport, -, rs, hrs, hne, hresolve⟩ := exists_desiredSpec_iff.mp ⟨spec, hspec⟩
    have hm := (Schema.report_eq_none Schema.ingress d).mp hreport
    obtain ⟨r, hr⟩ := List.exists_mem_of_ne_nil rs hne
    obtain ⟨name, -, hkey⟩ := ((delivers_routes hm hid).of_eq_ok hrs r hr).service
    obtain ⟨n, hn⟩ := hresolve r hr
    rw [hkey, hns, hmissing] at hn
    cases hn
  · rintro (hother | hnone) d' services' hd hservices spec
    · refine desiredSpec_iff_of_others hd (fun hm rs hrs r hr => ?_) instances spec
      obtain ⟨id, hid⟩ := exists_identity hm
      obtain ⟨name, -, hkey⟩ := ((delivers_routes hm hid).of_eq_ok hrs r hr).service
      have hpairs := (List.forall₂_and_left _ _).mpr ⟨hs, hservices⟩
      rw [hkey]
      exact hpairs.imp fun s s' h => h.1.same_or_other h.2 (hother id hid) name
    · have hself : List.Forall₂ SameByDefault services services :=
        List.forall₂_same.mpr fun s _ => .same s
      refine iff_of_false (fun h => ?_) (hnone services hself spec)
      exact hnone services' hservices spec (hd.flip.desiredSpec (fun _ _ _ _ _ _ hn => hn) h)

end Ingress

namespace Shop

def bareService : Document :=
  .object [("metadata", .object [("name", .string "web")]),
    ("spec", .object [("type", .string "NodePort"),
      ("ports", .array [.object [("port", .int 80), ("nodePort", .int 30080)]])])]

theorem sameByDefault_bareService : SameByDefault service bareService := by
  refine .fields rfl rfl (fun key hk => ?_) (fun key hk => ?_) (Or.inr rfl) (Or.inl rfl)
  · simp only [Ledger.get?, Ne.symm hk, if_false]
  · simp only [Ledger.get?, Ne.symm hk, if_false]

theorem exists_spec_service : ∃ spec,
    Ingress.desiredSpec ingress (Service.nodePort (.objects [service])) [] = .ok spec := by
  have hok : (Ingress.desiredSpec ingress (Service.nodePort (.objects [service])) []).isOk := by
    decide +kernel
  cases h : Ingress.desiredSpec ingress (Service.nodePort (.objects [service])) [] with
  | ok spec => exact ⟨spec, rfl⟩
  | error fault =>
    rw [h] at hok
    cases hok

/-- An ingress without a namespace finds the service that writes the default one, but not the
service that leaves it out as well. -/
theorem unfound_bareService :
    SameByDefault service bareService ∧
      Ingress.identity ingress = .ok ⟨Ingress.defaultNamespace, "web"⟩ ∧
      (∃ spec, Ingress.desiredSpec ingress (Service.nodePort (.objects [service])) [] = .ok spec) ∧
      Ingress.desiredSpec ingress (Service.nodePort (.objects [bareService])) [] =
        .error (.serviceMissing "default/web") :=
  ⟨sameByDefault_bareService, rfl, exists_spec_service, by decide +kernel⟩

theorem named_service : Service.Named service := by
  refine .intro rfl rfl (by decide) fun v hv => ?_
  obtain rfl := Option.some.inj hv
  exact ⟨"default", rfl, by decide, by decide⟩

/-- Whether the service leaves out its namespace is seen by the ingress in the default namespace,
but not by the one of another namespace. -/
theorem omission_seen_at_default :
    (∀ s ∈ [service], Service.Named s) ∧
      (∀ d' services', SameByDefault forked d' →
        List.Forall₂ SameByDefault [service] services' → ∀ spec,
          Ingress.desiredSpec d' (Service.nodePort (.objects services')) [] = .ok spec ↔
            Ingress.desiredSpec forked (Service.nodePort (.objects [service])) [] = .ok spec) ∧
      ¬∀ d' services', SameByDefault ingress d' →
        List.Forall₂ SameByDefault [service] services' → ∀ spec,
          Ingress.desiredSpec d' (Service.nodePort (.objects services')) [] = .ok spec ↔
            Ingress.desiredSpec ingress (Service.nodePort (.objects [service])) [] = .ok spec := by
  have hnamed : ∀ s ∈ [service], Service.Named s := fun s hs =>
    List.mem_singleton.mp hs ▸ named_service
  refine ⟨hnamed, ?_, fun hall => ?_⟩
  · refine (Ingress.omission_unseen_iff forked [] hnamed).2.mpr (Or.inl fun id hid => ?_)
    obtain rfl := Except.ok.inj hid
    decide
  · obtain ⟨spec, hspec⟩ := exists_spec_service
    rcases (Ingress.omission_unseen_iff ingress [] hnamed).2.mp hall with hother | hnone
    · exact hother _ rfl rfl
    · exact hnone [service] (List.forall₂_same.mpr fun s _ => .same s) spec hspec

end Shop

end IngressControl
