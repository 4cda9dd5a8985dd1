import IngressControl.Proofs.Coverage

/-! What is extracted from an ingress that meets the schema. Its service ports are read off the
document along two paths, without those that are equal to an earlier one. The load balancer that is
asked for has them in this order, each with the node port that it resolves to. -/

namespace IngressControl

namespace Document

inductive Step
  | key (name : String)
  | each

/-- The values at the end of a path, in the order in which they are written. -/
def select : List Step → Document → List Document
  | [], d => [d]
  | .key name :: path, .object fields =>
    match Ledger.get? name fields with
    | some d => select path d
    | none => []
  | .each :: path, .array items => items.flatMap (select path)
  | _ :: _, _ => []

section Select

variable {fields : List (String × Document)} {name : String}

@[simp] theorem select_of_some {d : Document} (h : Ledger.get? name fields = some d)
    (path : List Step) :
    (object fields).select (.key name :: path) = d.select path := by
  simp only [select, h]

@[simp] theorem select_of_none (h : Ledger.get? name fields = none) (path : List Step) :
    (object fields).select (.key name :: path) = [] := by
  simp only [select, h]

@[simp] theorem field_of_some {d : Document} (h : Ledger.get? name fields = some d) :
    (object fields).field name = .ok d := by
  rw [field, field?, h]
  rfl

@[simp] theorem field_of_none (h : Ledger.get? name fields = none) :
    (object fields).field name = .ok null := by
  rw [field, field?, h]
  rfl

end Select

end Document

namespace Schema

variable {schema part : Schema} {fields : List (String × Document)} {key : String}
  {entries : List (String × List Keyword)}

/-- A property that holds a list has the items at the end of its path, and none if it is missing. -/
theorem Meets.exists_items (h : Meets schema (.object fields)) (hk : .properties entries ∈ schema)
    (he : (key, [.type [.array], .items part]) ∈ entries) :
    ∃ v items, (Document.object fields).field key = .ok v ∧ v.elementsOrNone = .ok items ∧
      (∀ item ∈ items, Meets part item) ∧
      ∀ path, (Document.object fields).select (.key key :: .each :: path) =
        items.flatMap (Document.select path) := by
  cases hg : Ledger.get? key fields with
  | none =>
    exact ⟨.null, [], Document.field_of_none hg, rfl, nofun, fun path =>
      Document.select_of_none hg _⟩
  | some v =>
    have hv := h.property hk he hg
    obtain ⟨items, rfl⟩ := hv.array (.head _)
    exact ⟨.array items, items, Document.field_of_some hg, Document.elementsOrNone_array items,
      hv.item (.tail _ (.head _)), fun path => Document.select_of_some hg _⟩

end Schema

namespace Ingress

def defaultPath : List Document.Step := [.key "spec", .key "backend"]

def rulesPath : List Document.Step :=
  [.key "spec", .key "rules", .each, .key "http", .key "paths", .each, .key "backend"]

/-- The default backend and then those of every path of every rule, as they are declared. -/
def declaredBackends (d : Document) : List Document :=
  d.select defaultPath ++ d.select rulesPath

def namespaceOf (d : Document) : String :=
  match d.select [.key "metadata", .key "namespace"] with
  | [.string ns] => ns
  | _ => defaultNamespace

/-- The service of a namespace and the port that a backend names. -/
def pair? (ns : String) (backend : Document) : Option Route :=
  match backend.select [.key "serviceName"], backend.select [.key "servicePort"] with
  | [.string service], [port] => some ⟨ns ++ "/" ++ service, port⟩
  | _, _ => none

def firstsFrom (earlier : List Route) : List Route → List Route
  | [] => []
  | r :: rest =>
    if earlier.any (fun e => e.same r) then firstsFrom (earlier ++ [r]) rest
    else r :: firstsFrom (earlier ++ [r]) rest

/-- The service ports of an ingress as they are declared, without those equal to an earlier one. -/
def pairs (d : Document) : List Route :=
  firstsFrom [] ((declaredBackends d).filterMap (pair? (namespaceOf d)))

def annotationPath (name : String) : List Document.Step :=
  [.key "metadata", .key "annotations", .key name]

def annotationText (d : Document) (name byDefault : String) : String :=
  match d.select (annotationPath name) with
  | [.string s] => s
  | _ => byDefault

/-- A load balancer is the one that an ingress asks for: its backends are the pairs of the ingress
in their order with the ports to which they resolve, its node ports are these ports, each once, and
the rest is as it is written and as it is given. -/
structure Extracts (d : Document) (resolve : String → Document → Except Fault Int)
    (instances : List Document) (spec : DesiredSpec) : Prop where
  scheme : spec.scheme = annotationText d schemeAnnotation defaultScheme
  subnets : spec.subnets = Text.Entries.parse (annotationText d subnetsAnnotation "")
  securityGroups :
    spec.securityGroups = Text.Entries.parse (annotationText d securityGroupsAnnotation "")
  backends : List.Forall₂ (fun r b => b.serviceKey = r.serviceKey ∧ b.servicePort = r.servicePort ∧
    resolve r.serviceKey r.servicePort = .ok b.nodePort) (pairs d) spec.backends
  ascending : spec.nodePorts.Pairwise (· < ·)
  nodePorts : ∀ n, n ∈ spec.nodePorts ↔ ∃ b ∈ spec.backends, b.nodePort = n
  instances : spec.instances = instances

section Declared

variable {d : Document}

/-- The backends of a valid rule are those of its paths. -/
theorem ruleBackends_eq {rule : Document} (hm : Schema.Meets Schema.rule rule) :
    ruleBackends rule =
      .ok (rule.select [.key "http", .key "paths", .each, .key "backend"]) := by
  obtain ⟨fields, rfl⟩ := hm.object (.head _)
  cases hg : Ledger.get? "http" fields with
  | none =>
    rw [Document.select_of_none hg, ruleBackends, Document.field_of_none hg]
    rfl
  | some http =>
    have hhttp := hm.property (.tail _ (.head _)) (.tail _ (.head _)) hg
    obtain ⟨entries, rfl⟩ := hhttp.object (.head _)
    obtain ⟨v, items, hfield, hitems, hmeets, hselect⟩ :=
      hhttp.exists_items (.tail _ (.tail _ (.head _))) (.head _)
    have hbackend : ∀ path ∈ items, ∃ b, path.require "backend" = .ok b ∧
        path.select [.key "backend"] = [b] := by
      intro path hp
      obtain ⟨parts, rfl⟩ := (hmeets path hp).object (.head _)
      obtain ⟨b, hb⟩ := (hmeets _ hp).exists_field (.tail _ (.head _)) (.head _)
      exact ⟨b, by rw [Document.require, hb], Document.select_of_some hb []⟩
    have hmapM : items.mapM (fun path => path.require "backend") =
        .ok (items.flatMap (Document.select [.key "backend"])) := by
      clear hfield hitems hmeets hselect
      induction items with
      | nil => rfl
      | cons path rest ih =>
        obtain ⟨b, hb, hs⟩ := hbackend path List.mem_cons_self
        rw [List.mapM_cons, hb, ih fun p hp => hbackend p (List.mem_cons_of_mem _ hp),
          List.flatMap_cons, hs]
        rfl
    rw [Document.select_of_some hg, hselect, ruleBackends, Document.field_of_some hg]
    simp only [Bind.bind, Except.bind, Document.orEmpty_object, hfield, hitems, hmapM]

/-- The backends of an ingress that meets the schema are those at the end of the two paths. -/
theorem backends_eq (hm : Schema.Meets Schema.ingress d) :
    backends d = .ok (declaredBackends d) := by
  obtain ⟨fields, rfl⟩ := hm.object (.head _)
  obtain ⟨spec, hg⟩ := hm.exists_field (.tail _ (.head _)) (.tail _ (.head _))
  have hspec := hm.property (.tail _ (.tail _ (.head _))) (.tail _ (.head _)) hg
  obtain ⟨parts, rfl⟩ := hspec.object (.head _)
  have hfirst : ∃ first, (Document.object parts).field "backend" = .ok first ∧
      (if first.isVoid then [] else [first]) =
        (Document.object parts).select [.key "backend"] := by
    cases hb : Ledger.get? "backend" parts with
    | none => exact ⟨.null, Document.field_of_none hb, (Document.select_of_none hb []).symm⟩
    | some b =>
      have hbackend := hspec.property (.tail _ (.head _)) (.head _) hb
      obtain ⟨entries, rfl⟩ := hbackend.object (.head _)
      obtain ⟨v, hv⟩ := hbackend.exists_field (.tail _ (.head _)) (.head _)
      refine ⟨_, Document.field_of_some hb, ?_⟩
      rw [Document.select_of_some hb]
      cases entries with
      | nil => cases hv
      | cons entry rest => rfl
  obtain ⟨first, hfirst, hselectFirst⟩ := hfirst
  obtain ⟨v, rules, hfield, hrules, hmeets, hselect⟩ :=
    hspec.exists_items (.tail _ (.head _)) (.tail _ (.head _))
  have hmapM : rules.mapM ruleBackends = .ok (rules.map (Document.select
      [.key "http", .key "paths", .each, .key "backend"])) := by
    rw [mapM_eq_ok_iff, List.forall₂_map_right_iff, List.forall₂_same]
    exact fun rule hr => ruleBackends_eq (hmeets rule hr)
  rw [declaredBackends, defaultPath, rulesPath, Document.select_of_some hg,
    Document.select_of_some hg, hselect, ← hselectFirst, backends, Document.field_of_some hg]
  simp only [Bind.bind, Except.bind, Document.orEmpty_object, hfirst, hfield, hrules, hmapM]
  rfl

theorem identity_ns (hm : Schema.Meets Schema.ingress d) {id : Identity}
    (hid : identity d = .ok id) : id.ns = namespaceOf d := by
  have hmetadata := meets_metadata hm
  obtain ⟨fields, rfl⟩ := hm.object (.head _)
  obtain ⟨v, hv⟩ := hm.exists_field (.tail _ (.head _)) (.head _)
  obtain ⟨entries, rfl⟩ :=
    (hm.property (.tail _ (.tail _ (.head _))) (.head _) hv).object (.head _)
  have hentries : metadata (.object fields) = entries := by
    simp only [metadata, hv]
  rw [hentries] at hmetadata
  obtain ⟨w, hw⟩ := hmetadata.exists_field (.tail _ (.head _)) (.head _)
  obtain ⟨name, rfl, hname⟩ :=
    (hmetadata.property (.tail _ (.tail _ (.head _))) (.head _) hw).text
  have hnamed : name.isEmpty = false := by simpa using hname
  rw [namespaceOf, Document.select_of_some hv]
  simp only [identity, hentries, hw, hnamed, Bool.false_eq_true, if_false] at hid
  cases hns : Ledger.get? "namespace" entries with
  | none =>
    rw [hns] at hid
    rw [Document.select_of_none hns]
    obtain rfl := Except.ok.inj hid
    rfl
  | some u =>
    obtain ⟨ns, rfl, hne⟩ :=
      (hmetadata.property (.tail _ (.tail _ (.head _))) (.tail _ (.head _)) hns).text
    have hwritten : (Document.string ns).isVoid = false := by simpa [Document.isVoid] using hne
    simp only [hns, Option.getD_some, hwritten, Bool.false_eq_true, if_false] at hid
    rw [Document.select_of_some hns]
    obtain rfl := Except.ok.inj hid
    rfl

theorem exists_pair {b : Document} (hm : Schema.Meets Schema.backend b) (ns : String) :
    ∃ r, route ns b = .ok r ∧ pair? ns b = some r := by
  obtain ⟨entries, rfl⟩ := hm.object (.head _)
  obtain ⟨service, hservice⟩ := hm.exists_field (.tail _ (.head _)) (.head _)
  obtain ⟨port, hport⟩ := hm.exists_field (.tail _ (.head _)) (.tail _ (.head _))
  obtain ⟨name, rfl, -⟩ := (hm.property (.tail _ (.tail _ (.head _))) (.head _) hservice).text
  refine ⟨⟨ns ++ "/" ++ name, port⟩, ?_, ?_⟩
  · simp only [route, Document.require, hservice, hport]
    rfl
  · rw [pair?, Document.select_of_some hservice, Document.select_of_some hport]
    rfl

/-- Keeping what is equal to nothing that is kept keeps what is equal to nothing before it. -/
theorem distinctFrom_eq {kept earlier rs : List Route} (hk : ∀ k ∈ kept, k ∈ earlier)
    (he : ∀ e ∈ earlier, ∃ k ∈ kept, k = e ∨ k.same e = true)
    (hkeys : ∀ r ∈ earlier ++ rs, r.servicePort.IsKey) :
    distinctFrom kept rs = kept ++ firstsFrom earlier rs := by
  induction rs generalizing kept earlier with
  | nil => simp [distinctFrom, firstsFrom]
  | cons r rest ih =>
    have hsame : kept.any (fun k => k.same r) = earlier.any (fun e => e.same r) := by
      rw [Bool.eq_iff_iff, List.any_eq_true, List.any_eq_true]
      refine ⟨fun ⟨k, hmem, hs⟩ => ⟨k, hk k hmem, hs⟩, fun ⟨e, hmem, hs⟩ => ?_⟩
      obtain ⟨k, hmem', rfl | hke⟩ := he e hmem
      · exact ⟨k, hmem', hs⟩
      · -- what is equal to an earlier route is equal to the one that is kept for it
        refine ⟨k, hmem', ?_⟩
        rw [Route.same, Bool.and_eq_true, beq_iff_eq] at hs hke ⊢
        have hport := Document.same_congr (hkeys e (List.mem_append_left _ hmem)) hs.2 k.servicePort
        exact ⟨hke.1.trans hs.1, hport ▸ hke.2⟩
    have hassoc : earlier ++ [r] ++ rest = earlier ++ r :: rest := by simp
    rw [distinctFrom_cons, firstsFrom, hsame]
    by_cases hany : earlier.any (fun e => e.same r) = true
    · rw [if_pos hany, if_pos hany]
      refine ih (fun k hmem => List.mem_append_left _ (hk k hmem)) (fun e hmem => ?_)
        (hassoc ▸ hkeys)
      rcases List.mem_append.mp hmem with hmem | hmem
      · exact he e hmem
      · obtain rfl := List.mem_singleton.mp hmem
        obtain ⟨k, hmem', hs⟩ := List.any_eq_true.mp (hsame.trans hany)
        exact ⟨k, hmem', Or.inr hs⟩
    · rw [if_neg hany, if_neg hany, @ih (kept ++ [r]) (earlier ++ [r]) ?_ ?_ (hassoc ▸ hkeys)]
      · simp
      · intro k hmem
        rcases List.mem_append.mp hmem with hmem | hmem
        · exact List.mem_append_left _ (hk k hmem)
        · exact List.mem_append_right _ hmem
      · intro e hmem
        rcases List.mem_append.mp hmem with hmem | hmem
        · obtain ⟨k, hmem', hs⟩ := he e hmem
          exact ⟨k, List.mem_append_left _ hmem', hs⟩
        · exact ⟨e, List.mem_append_right _ hmem, Or.inl rfl⟩

/-- The routes of an ingress that meets the schema are its pairs. -/
theorem routes_eq (hm : Schema.Meets Schema.ingress d) : routes d = .ok (pairs d) := by
  obtain ⟨id, hid⟩ := exists_identity hm
  have hbackend := (delivers_backends hm).of_eq_ok (backends_eq hm)
  have hmapM : (declaredBackends d).mapM (route (namespaceOf d)) =
      .ok ((declaredBackends d).filterMap (pair? (namespaceOf d))) := by
    generalize declaredBackends d = bs at hbackend
    induction bs with
    | nil => rfl
    | cons b rest ih =>
      obtain ⟨r, hroute, hpair⟩ := exists_pair (hbackend b List.mem_cons_self) (namespaceOf d)
      rw [List.mapM_cons, hroute, ih fun b hb => hbackend b (List.mem_cons_of_mem _ hb),
        List.filterMap_cons, hpair]
      rfl
  have hkeys : ∀ r ∈ (declaredBackends d).filterMap (pair? (namespaceOf d)),
      r.servicePort.IsKey := by
    intro r hr
    obtain ⟨b, hb, hroute⟩ := exists_left_of_forall₂ (mapM_eq_ok_iff.mp hmapM) hr
    exact ((delivers_route (hbackend b hb) _).of_eq_ok hroute).isKey
  have hdistinct : distinct ((declaredBackends d).filterMap (pair? (namespaceOf d))) = pairs d :=
    @distinctFrom_eq [] [] _ nofun nofun (by simpa using hkeys)
  rw [routes, hid]
  simp only [Bind.bind, Except.bind, backends_eq hm, identity_ns hm hid, hmapM, hdistinct]
  rfl

/-- The annotation of a valid ingress is read as its text, or by default. -/
theorem noted_eq (hm : Schema.Meets Schema.ingress d) (name byDefault : String) :
    noted d name byDefault = annotationText d name byDefault := by
  have hmetadata := meets_metadata hm
  obtain ⟨fields, rfl⟩ := hm.object (.head _)
  obtain ⟨v, hv⟩ := hm.exists_field (.tail _ (.head _)) (.head _)
  obtain ⟨entries, rfl⟩ :=
    (hm.property (.tail _ (.tail _ (.head _))) (.head _) hv).object (.head _)
  have hentries : metadata (.object fields) = entries := by
    simp only [metadata, hv]
  rw [hentries] at hmetadata
  rw [annotationText, annotationPath, Document.select_of_some hv, noted, annotations, hentries]
  cases hg : Ledger.get? "annotations" entries with
  | none =>
    rw [Document.select_of_none hg]
    rfl
  | some w =>
    have hannotations := hmetadata.property (.tail _ (.tail _ (.head _)))
      (.tail _ (.tail _ (.head _))) hg
    obtain ⟨notes, rfl⟩ := hannotations.object (.head _)
    rw [Document.select_of_some hg]
    cases hnote : Ledger.get? name notes with
    | none =>
      rw [Document.select_of_none hnote]
      rfl
    | some u =>
      -- no annotation has a schema of its own, so each is a text
      have htext := Schema.additionalViolations_eq_nil.mp
        (hannotations.keyword (.tail _ (.head _))) _ (Ledger.mem_of_get? hnote)
      obtain ⟨t, ht, hholds⟩ := (htext.resolve_left Bool.false_ne_true).type (.head _)
      obtain rfl := List.mem_singleton.mp ht
      rw [Document.select_of_some hnote]
      cases u with
      | string s => rfl
      | _ => cases hholds

variable {resolve : String → Document → Except Fault Int} {instances : List Document}

theorem resolved_eq_ok_iff {r : Route} {b : Backend} : resolved resolve r = .ok b ↔
    b.serviceKey = r.serviceKey ∧ b.servicePort = r.servicePort ∧
      resolve r.serviceKey r.servicePort = .ok b.nodePort := by
  constructor
  · intro h
    obtain ⟨n, hn, h⟩ := bind_eq_ok h
    obtain rfl := Except.ok.inj h
    exact ⟨rfl, rfl, hn⟩
  · obtain ⟨key, port, n⟩ := b
    rintro ⟨rfl, rfl, hn⟩
    rw [resolved, hn]
    rfl

theorem resolved_eq_error_iff {r : Route} {fault : Fault} :
    resolved resolve r = .error fault ↔ resolve r.serviceKey r.servicePort = .error fault := by
  constructor
  · intro h
    rcases bind_eq_error h with hresolve | ⟨n, -, hnone⟩
    · exact hresolve
    · cases hnone
  · intro h
    rw [resolved, h]
    rfl

def specOf (d : Document) (instances : List Document) (backends : List Backend) : DesiredSpec where
  scheme := annotationText d schemeAnnotation defaultScheme
  subnets := Text.Entries.parse (annotationText d subnetsAnnotation "")
  securityGroups := Text.Entries.parse (annotationText d securityGroupsAnnotation "")
  backends := backends
  instances := instances

/-- Behind the checks only the pairs are resolved, one after the other. -/
theorem desiredSpec_eq (hm : Schema.Meets Schema.ingress d)
    (hs : annotationText d schemeAnnotation defaultScheme ∈ validSchemes) :
    desiredSpec d resolve instances =
      (pairs d).mapM (resolved resolve) >>= fun backends =>
        if backends.isEmpty then .error .noBackends else .ok (specOf d instances backends) := by
  have hreport : Schema.ingressReport d = none := (Schema.report_eq_none Schema.ingress d).mpr hm
  have hvalid : validSchemes.contains (annotationText d schemeAnnotation defaultScheme) = true := by
    simpa using hs
  unfold desiredSpec
  simp only [hreport, noted_eq hm, hvalid, routes_eq hm, Bool.not_true, Bool.false_eq_true,
    if_false]
  refine congrArg (Bind.bind ((pairs d).mapM (resolved resolve))) (funext fun backends => ?_)
  cases backends <;> rfl

/-- The backends are resolved exactly if each pair is, in order. -/
theorem mapM_resolved_eq_ok_iff {backends : List Backend} :
    (pairs d).mapM (resolved resolve) = .ok backends ↔
      List.Forall₂ (fun r b => b.serviceKey = r.serviceKey ∧ b.servicePort = r.servicePort ∧
        resolve r.serviceKey r.servicePort = .ok b.nodePort) (pairs d) backends := by
  simp only [mapM_eq_ok_iff, resolved_eq_ok_iff]

/-- What is extracted from an ingress that is accepted and names a scheme that there is, or none.
Its pairs are resolved in their order. If there are pairs and all of them resolve, this gives the
load balancer; otherwise what goes wrong is that there are no pairs, or it is the fault of the first
pair that does not resolve. -/
theorem desiredSpec_exact (hv : Schema.ingressReport d = none)
    (hs : d.select (annotationPath schemeAnnotation) = [] ∨
      ∃ s ∈ validSchemes, d.select (annotationPath schemeAnnotation) = [.string s])
    (resolve : String → Document → Except Fault Int) (instances : List Document) :
    ((∃ spec, desiredSpec d resolve instances = .ok spec) ↔
        pairs d ≠ [] ∧ ∀ r ∈ pairs d, ∃ n, resolve r.serviceKey r.servicePort = .ok n) ∧
      (∀ spec, desiredSpec d resolve instances = .ok spec → Extracts d resolve instances spec) ∧
      ∀ fault, desiredSpec d resolve instances = .error fault ↔
        (pairs d = [] ∧ fault = .noBackends) ∨
          ∃ before r after, pairs d = before ++ r :: after ∧
            (∀ q ∈ before, ∃ n, resolve q.serviceKey q.servicePort = .ok n) ∧
            resolve r.serviceKey r.servicePort = .error fault := by
  have hm := (Schema.report_eq_none Schema.ingress d).mp hv
  have hscheme : annotationText d schemeAnnotation defaultScheme ∈ validSchemes := by
    rcases hs with hnone | ⟨s, hvalid, hsome⟩
    · rw [annotationText, hnone]
      decide
    · rw [annotationText, hsome]
      exact hvalid
  have heq := @desiredSpec_eq d resolve instances hm hscheme
  have hresolve (r : Route) : (∃ b, resolved resolve r = .ok b) ↔
      ∃ n, resolve r.serviceKey r.servicePort = .ok n :=
    ⟨fun ⟨b, hb⟩ => ⟨b.nodePort, (resolved_eq_ok_iff.mp hb).2.2⟩,
      fun ⟨n, hn⟩ => ⟨⟨r.serviceKey, r.servicePort, n⟩, resolved_eq_ok_iff.mpr ⟨rfl, rfl, hn⟩⟩⟩
  refine ⟨?_, fun spec h => ?_, fun fault => ?_⟩
  · rw [exists_desiredSpec_iff, routes_eq hm, noted_eq hm]
    constructor
    · rintro ⟨-, -, rs, hrs, hsome, hall⟩
      obtain rfl := Except.ok.inj hrs
      exact ⟨hsome, hall⟩
    · exact fun ⟨hsome, hall⟩ => ⟨hv, hscheme, _, rfl, hsome, hall⟩
  · rw [heq] at h
    obtain ⟨backends, hbackends, h⟩ := bind_eq_ok h
    split at h
    · cases h
    · obtain rfl := Except.ok.inj h
      exact {
        scheme := rfl
        subnets := rfl
        securityGroups := rfl
        backends := mapM_resolved_eq_ok_iff.mp hbackends
        ascending := DesiredSpec.ascending_nodePorts _
        nodePorts := DesiredSpec.mem_nodePorts _
        instances := rfl }
  · rw [heq]
    constructor
    · intro h
      rcases bind_eq_error h with hfails | ⟨backends, hbackends, h⟩
      · obtain ⟨before, r, after, hsplit, hbefore, he⟩ := mapM_eq_error_iff.mp hfails
        exact Or.inr ⟨before, r, after, hsplit, fun q hq => (hresolve q).mp (hbefore q hq),
          resolved_eq_error_iff.mp he⟩
      · -- without a failing pair there are no backends because there are no pairs
        have hall := mapM_eq_ok_iff.mp hbackends
        cases backends with
        | nil =>
          refine Or.inl ⟨List.forall₂_nil_right_iff.mp hall, ?_⟩
          exact (Except.error.inj h).symm
        | cons b rest => cases h
    · rintro (⟨hnone, rfl⟩ | ⟨before, r, after, hsplit, hbefore, he⟩)
      · rw [hnone]
        rfl
      · have hfails : (pairs d).mapM (resolved resolve) = .error fault :=
          mapM_eq_error_iff.mpr ⟨before, r, after, hsplit,
            fun q hq => (hresolve q).mpr (hbefore q hq), resolved_eq_error_iff.mpr he⟩
        rw [hfails]
        rfl

end Declared

end Ingress

namespace Shop

/-- An ingress with two services. The port of the one is written twice, as a whole number and as a
decimal one, and the subnets in no order. -/
def crossing : Document :=
  .object [("metadata", .object [("name", .string "web"), ("namespace", .string "shop"),
      ("annotations", .object [(Ingress.schemeAnnotation, .string "internal"),
        (Ingress.subnetsAnnotation, .string "b, a,, c")])]),
    ("spec", .object [("backend",
        .object [("serviceName", .string "web"), ("servicePort", .int 80)]),
      ("rules", .array [.object [("http", .object [("paths", .array [
        .object [("backend", .object [("serviceName", .string "web"),
          ("servicePort", .float (Numeral.Double.ofDecimal false 80 0))])],
        .object [("backend", .object [("serviceName", .string "api"),
          ("servicePort", .string "http")])]])])]])])]

def commonPort (_ : String) (_ : Document) : Except Fault Int := .ok 30080

/-- Two pairs are extracted, with one node port and the subnets as they are written. -/
theorem extracted_crossing :
    Schema.ingressReport crossing = none ∧
      crossing.select (Ingress.annotationPath Ingress.schemeAnnotation) = [.string "internal"] ∧
      (Ingress.pairs crossing).map (fun r => (r.serviceKey, r.servicePort)) =
        [("shop/web", .int 80), ("shop/api", .string "http")] ∧
      ∃ spec, Ingress.desiredSpec crossing commonPort [.string "i-1"] = .ok spec ∧
        Ingress.Extracts crossing commonPort [.string "i-1"] spec ∧ spec.nodePorts = [30080] ∧
        spec.subnets = ["b", "a", "c"] := by
  have hreport : Schema.ingressReport crossing = none := by decide +kernel
  have hscheme : crossing.select (Ingress.annotationPath Ingress.schemeAnnotation) =
      [.string "internal"] := by decide +kernel
  have hpairs : (Ingress.pairs crossing).map (fun r => (r.serviceKey, r.servicePort)) =
      [("shop/web", .int 80), ("shop/api", .string "http")] := by decide +kernel
  obtain ⟨hiff, hextracts, -⟩ := Ingress.desiredSpec_exact hreport
    (Or.inr ⟨"internal", by decide, hscheme⟩) commonPort [.string "i-1"]
  have hsome : Ingress.pairs crossing ≠ [] := by
    intro hnone
    rw [hnone] at hpairs
    cases hpairs
  obtain ⟨spec, hspec⟩ := hiff.mpr ⟨hsome, fun r _ => ⟨30080, rfl⟩⟩
  have hvalues : (Ingress.desiredSpec crossing commonPort [.string "i-1"]).map
      (fun spec => (spec.nodePorts, spec.subnets)) = .ok ([30080], ["b", "a", "c"]) := by
    decide +kernel
  rw [hspec] at hvalues
  obtain ⟨hports, hsubnets⟩ := Prod.mk.inj (Except.ok.inj hvalues)
  exact ⟨hreport, hscheme, hpairs, spec, hspec, hextracts spec hspec, hports, hsubnets⟩

end Shop

end IngressControl
