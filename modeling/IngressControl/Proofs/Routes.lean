import IngressControl.Proofs.Rearranged

/-! Where ingresses route to. One that meets the schema has backends with a service and a port each.
The backends of rearranged ingresses are the same up to the order, a service port is known by its
number or name alone, and so the load balancers that they ask for are alike. -/

namespace IngressControl
open scoped List
open Document (Fieldwise Itemwise IsKey under)

namespace Ingress

theorem delivers_ruleBackends {rule : Document} (hm : Schema.Meets Schema.rule rule) :
    Delivers (fun bs => ∀ b ∈ bs, Schema.Meets Schema.backend b) (ruleBackends rule) := by
  obtain ⟨fields, rfl⟩ := hm.object (.head _)
  refine (hm.field (.tail _ (.head _)) (.tail _ (.head _))).bind fun http hhttp => ?_
  refine (Schema.field_orEmpty hhttp (.head _) (.tail _ (.tail _ (.head _)))
    (.head _)).bind fun paths hpaths => ?_
  refine (Schema.items_orNone hpaths).bind fun items hitems => ?_
  exact .mapM fun path hp => (hitems path hp).require (.head _) (.tail _ (.head _))
    (.tail _ (.tail _ (.head _))) (.head _) (.tail _ (.head _))

/-- What meets the schema of ingresses has backends that meet theirs. -/
theorem delivers_backends {d : Document} (hm : Schema.Meets Schema.ingress d) :
    Delivers (fun bs => ∀ b ∈ bs, Schema.Meets Schema.backend b) (backends d) := by
  obtain ⟨fields, rfl⟩ := hm.object (.head _)
  refine (hm.field (.tail _ (.tail _ (.head _))) (.tail _ (.head _))).bind fun spec hspec => ?_
  refine (Schema.field_orEmpty hspec (.head _) (.tail _ (.head _))
    (.head _)).bind fun first hfirst => ?_
  refine (Schema.field_orEmpty hspec (.head _) (.tail _ (.head _))
    (.tail _ (.head _))).bind fun rules hrules => ?_
  refine (Schema.items_orNone hrules).bind fun items hitems => ?_
  refine (Delivers.mapM fun rule hr => delivers_ruleBackends (hitems rule hr)).bind
    fun ofRules hofRules => ⟨_, rfl, fun b hb => ?_⟩
  rcases List.mem_append.mp hb with hb | hb
  · -- a default backend that is void counts as missing
    split at hb
    · cases hb
    · rename_i hvoid
      obtain rfl := List.mem_singleton.mp hb
      refine hfirst.resolve_left fun hnull => hvoid ?_
      rw [hnull]
      rfl
  · obtain ⟨bs, hbs, hb⟩ := List.mem_flatten.mp hb
    exact hofRules bs hbs b hb

/-- A route of a namespace: to a service that has a name, by a port that is a text or a whole
number. -/
structure Route.Proper (ns : String) (r : Route) : Prop where
  service : ∃ name, name ≠ "" ∧ r.serviceKey = ns ++ "/" ++ name
  port : (∃ s, r.servicePort = .string s) ∨ (∃ n, r.servicePort = .int n) ∨
    ∃ x, r.servicePort = .float x ∧ x.isWhole = true

theorem Route.Proper.isKey {ns : String} {r : Route} (h : r.Proper ns) : r.servicePort.IsKey := by
  rcases h.port with ⟨s, hp⟩ | ⟨n, hp⟩ | ⟨x, hp, -⟩ <;> rw [hp] <;> rfl

/-- What meets the schema of backends routes to a service. -/
theorem delivers_route {b : Document} (hm : Schema.Meets Schema.backend b) (ns : String) :
    Delivers (Route.Proper ns) (route ns b) := by
  refine (hm.require (.head _) (.tail _ (.head _)) (.tail _ (.tail _ (.head _))) (.head _)
    (.head _)).bind fun service hservice => ?_
  refine (hm.require (.head _) (.tail _ (.head _)) (.tail _ (.tail _ (.head _)))
    (.tail _ (.head _)) (.tail _ (.head _))).bind fun port hport => ?_
  obtain ⟨name, rfl, hname⟩ := hservice.text
  refine ⟨_, rfl, ⟨name, hname, rfl⟩, ?_⟩
  obtain ⟨t, ht, hholds⟩ := hport.type (.head _)
  rw [List.mem_cons, List.mem_singleton] at ht
  cases port with
  | string s => exact Or.inl ⟨s, rfl⟩
  | int n => exact Or.inr (Or.inl ⟨n, rfl⟩)
  | float x =>
    rcases ht with rfl | rfl
    · exact Or.inr (Or.inr ⟨x, rfl, hholds⟩)
    · cases hholds
  | _ => rcases ht with rfl | rfl <;> cases hholds

theorem flatten_perm {xs ys : List (List Document)} (h : Reordering (· ~ ·) xs ys) :
    xs.flatten ~ ys.flatten := by
  obtain ⟨zs, hzs, hp⟩ := h
  refine List.Perm.trans ?_ hp.flatten
  clear hp
  induction hzs with
  | nil => exact .refl _
  | cons hxz _ ih => exact hxz.append ih

theorem RuleReordered.ruleBackends {rule rule' : Document} (h : RuleReordered rule rule') :
    Agree (· ~ ·) (ruleBackends rule) (ruleBackends rule') := by
  have hpath (d : Document) : Itemwise Eq d d := .same d
  have hhttp (d : Document) : Fieldwise (under "paths" (Itemwise Eq)) d d := .same d
  refine (h.field "http" (under_refl hhttp "http")).bind fun http http' _ _ hr => ?_
  rw [Document.under_self] at hr
  refine (hr.orEmpty.field "paths" (under_refl hpath "paths")).bind fun paths paths' _ _ hr => ?_
  rw [Document.under_self] at hr
  refine (hr.elementsOrNone fun _ => rfl).bind fun items items' _ _ hr => ?_
  refine (Agree.mapM hr fun path path' hp => ?_).mono fun _ _ hr => hr.perm
  subst hp
  exact .refl (fun _ => rfl) _

/-- A reordered ingress has the same backends in some order. -/
theorem Reordered.backends {d d' : Document} (h : Reordered d d') :
    Agree (· ~ ·) (backends d) (backends d') := by
  have hrule (d : Document) : RuleReordered d d := .same d
  have hrules (d : Document) : Itemwise RuleReordered d d := .same d
  refine (h.field "spec" (PartReordered.refl "spec")).bind fun spec spec' _ _ hr => ?_
  have hr : SpecReordered spec spec' := hr
  have hspec : SpecReordered spec.orEmpty spec'.orEmpty := hr.orEmpty
  dsimp only
  refine (hspec.field "backend" (under_refl hrules "backend")).bind fun first first' _ _ hf => ?_
  rw [Document.under_of_ne (by decide)] at hf
  subst hf
  refine (hspec.field "rules" (under_refl hrules "rules")).bind fun rules rules' _ _ hr => ?_
  rw [Document.under_self] at hr
  refine (hr.elementsOrNone hrule).bind fun items items' _ _ hr => ?_
  refine (Agree.mapM hr fun _ _ h => h.ruleBackends).bind fun bs bs' _ _ hr => ?_
  exact .ok ((flatten_perm hr).append_left _)

def distinctFrom (kept rs : List Route) : List Route :=
  rs.foldl (fun kept r => if kept.any (fun k => k.same r) then kept else kept ++ [r]) kept

theorem distinctFrom_cons (kept : List Route) (first : Route) (rest : List Route) :
    distinctFrom kept (first :: rest) =
      distinctFrom (if kept.any (fun k => k.same first) then kept else kept ++ [first]) rest := rfl

/-- Taking out repetitions adds no route, and keeps for every route one that is the same. -/
theorem distinctFrom_spec (kept rs : List Route) :
    (∀ k ∈ kept, k ∈ distinctFrom kept rs) ∧ (∀ k ∈ distinctFrom kept rs, k ∈ kept ∨ k ∈ rs) ∧
      ∀ r ∈ rs, ∃ k ∈ distinctFrom kept rs, k = r ∨ k.same r = true := by
  induction rs generalizing kept with
  | nil => exact ⟨fun _ h => h, fun _ h => Or.inl h, nofun⟩
  | cons first rest ih =>
    rw [distinctFrom_cons]
    by_cases hany : kept.any (fun k => k.same first) = true
    · rw [if_pos hany]
      obtain ⟨hkept, hfrom, hrest⟩ := ih kept
      obtain ⟨k, hk, hs⟩ := List.any_eq_true.mp hany
      refine ⟨hkept, fun k hk => (hfrom k hk).imp_right (List.mem_cons_of_mem _), ?_⟩
      exact List.forall_mem_cons.mpr ⟨⟨k, hkept k hk, Or.inr hs⟩, hrest⟩
    · rw [if_neg hany]
      obtain ⟨hkept, hfrom, hrest⟩ := ih (kept ++ [first])
      have hfirst := hkept first (List.mem_append_right _ List.mem_cons_self)
      refine ⟨fun k hk => hkept k (List.mem_append_left _ hk), fun k hk => ?_, ?_⟩
      · rcases hfrom k hk with hk | hk
        · rcases List.mem_append.mp hk with hk | hk
          · exact Or.inl hk
          · exact Or.inr (List.mem_singleton.mp hk ▸ List.mem_cons_self)
        · exact Or.inr (List.mem_cons_of_mem _ hk)
      · exact List.forall_mem_cons.mpr ⟨⟨first, hfirst, Or.inl rfl⟩, hrest⟩

theorem distinct_spec (rs : List Route) :
    (∀ k ∈ distinct rs, k ∈ rs) ∧ ∀ r ∈ rs, ∃ k ∈ distinct rs, k = r ∨ k.same r = true := by
  obtain ⟨-, hfrom, hrest⟩ := distinctFrom_spec [] rs
  exact ⟨fun k hk => (hfrom k hk).resolve_left List.not_mem_nil, hrest⟩

def Respects (resolve : String → Document → Except Fault Int) : Prop :=
  ∀ (key : String) (port port' : Document), port.IsKey → port.same port' = true →
    Agree (· = ·) (resolve key port) (resolve key port')

def resolved (resolve : String → Document → Except Fault Int) (r : Route) :
    Except Fault Backend := do
  return ({ serviceKey := r.serviceKey, servicePort := r.servicePort,
            nodePort := ← resolve r.serviceKey r.servicePort } : Backend)

section Resolved

variable {resolve : String → Document → Except Fault Int} {rs rs' : List Route}

theorem resolved_eq_ok {r : Route} {backend : Backend} (h : resolved resolve r = .ok backend) :
    resolve r.serviceKey r.servicePort = .ok backend.nodePort := by
  obtain ⟨n, hn, h⟩ := bind_eq_ok h
  obtain rfl := Except.ok.inj h
  exact hn

/-- The routes that are kept resolve to the ports to which all of them do. -/
theorem mapM_resolved_iff (hr : Respects resolve) (hk : ∀ r ∈ rs, r.servicePort.IsKey) :
    ((∃ bs, (distinct rs).mapM (resolved resolve) = .ok bs) ↔
        ∀ r ∈ rs, ∃ n, resolve r.serviceKey r.servicePort = .ok n) ∧
      ∀ bs, (distinct rs).mapM (resolved resolve) = .ok bs →
        ∀ n, n ∈ bs.map Backend.nodePort ↔
          ∃ r ∈ rs, resolve r.serviceKey r.servicePort = .ok n := by
  obtain ⟨hfrom, hkept⟩ := distinct_spec rs
  have hsame {r : Route} (hmem : r ∈ rs) : ∃ k ∈ distinct rs,
      Agree (· = ·) (resolve k.serviceKey k.servicePort) (resolve r.serviceKey r.servicePort) := by
    obtain ⟨k, hkd, rfl | hs⟩ := hkept r hmem
    · exact ⟨k, hkd, .refl (fun _ => rfl) _⟩
    · rw [Route.same, Bool.and_eq_true, beq_iff_eq] at hs
      exact ⟨k, hkd, hs.1 ▸ hr _ _ _ (hk k (hfrom k hkd)) hs.2⟩
  refine ⟨⟨fun ⟨bs, hbs⟩ r hmem => ?_, fun hall => ?_⟩, fun bs hbs n => ⟨fun hn => ?_, ?_⟩⟩
  · obtain ⟨k, hkd, hagree⟩ := hsame hmem
    obtain ⟨backend, -, hb⟩ := exists_right_of_forall₂ (mapM_eq_ok_iff.mp hbs) hkd
    obtain ⟨n, hn, -⟩ := hagree.left (resolved_eq_ok hb)
    exact ⟨n, hn⟩
  · refine exists_mapM fun k hk => ?_
    obtain ⟨n, hn⟩ := hall k (hfrom k hk)
    refine ⟨⟨k.serviceKey, k.servicePort, n⟩, ?_⟩
    rw [resolved, hn]
    rfl
  · obtain ⟨backend, hb, rfl⟩ := List.mem_map.mp hn
    obtain ⟨k, hkd, hk⟩ := exists_left_of_forall₂ (mapM_eq_ok_iff.mp hbs) hb
    exact ⟨k, hfrom k hkd, resolved_eq_ok hk⟩
  · rintro ⟨r, hmem, hn⟩
    obtain ⟨k, hkd, hagree⟩ := hsame hmem
    obtain ⟨backend, hmem, hb⟩ := exists_right_of_forall₂ (mapM_eq_ok_iff.mp hbs) hkd
    obtain ⟨m, hm, rfl⟩ := hagree.right hn
    obtain rfl := Except.ok.inj (hm.symm.trans (resolved_eq_ok hb))
    exact List.mem_map_of_mem hmem

/-- Routes in another order resolve to the same node ports. -/
theorem agree_resolved (hp : rs ~ rs') (hr : Respects resolve)
    (hk : ∀ r ∈ rs, r.servicePort.IsKey) :
    Agree (fun bs bs' => ∀ n, n ∈ bs.map Backend.nodePort ↔ n ∈ bs'.map Backend.nodePort)
      ((distinct rs).mapM (resolved resolve)) ((distinct rs').mapM (resolved resolve)) := by
  obtain ⟨hok, hports⟩ := mapM_resolved_iff hr hk
  have hk' : ∀ r ∈ rs', r.servicePort.IsKey := fun r hm => hk r (hp.mem_iff.mpr hm)
  obtain ⟨hok', hports'⟩ := mapM_resolved_iff hr hk'
  have hboth : (∃ bs, (distinct rs).mapM (resolved resolve) = .ok bs) ↔
      ∃ bs, (distinct rs').mapM (resolved resolve) = .ok bs := by
    rw [hok, hok']
    simp only [hp.mem_iff]
  have hsame {bs bs' : List Backend} (hbs : (distinct rs).mapM (resolved resolve) = .ok bs)
      (hbs' : (distinct rs').mapM (resolved resolve) = .ok bs') (n : Int) :
      n ∈ bs.map Backend.nodePort ↔ n ∈ bs'.map Backend.nodePort := by
    rw [hports bs hbs, hports' bs' hbs']
    simp only [hp.mem_iff]
  constructor
  · intro bs hbs
    obtain ⟨bs', hbs'⟩ := hboth.mp ⟨bs, hbs⟩
    exact ⟨bs', hbs', hsame hbs hbs'⟩
  · intro bs' hbs'
    obtain ⟨bs, hbs⟩ := hboth.mpr ⟨bs', hbs'⟩
    exact ⟨bs, hbs, hsame hbs hbs'⟩

end Resolved

/-- Reordered ingresses that meet the schema have the same routes, up to the order. -/
theorem Reordered.routes {d d' : Document} (h : Reordered d d')
    (hm : Schema.Meets Schema.ingress d) :
    Agree (fun rs rs' => ∃ all all', rs = distinct all ∧ rs' = distinct all' ∧ all ~ all' ∧
      ∀ r ∈ all, r.servicePort.IsKey) (routes d) (routes d') := by
  unfold Ingress.routes
  rw [h.identity]
  refine (Agree.refl (fun _ => rfl) (Ingress.identity d')).bind fun id id' _ _ hid => ?_
  subst hid
  refine h.backends.bind fun bs bs' hbs _ hp => ?_
  have hmapM : Agree (· ~ ·) (bs.mapM (route id.ns)) (bs'.mapM (route id.ns)) :=
    (Agree.mapM (.of_perm hp) fun b b' hb => hb ▸ .refl (fun _ => rfl) _).mono fun _ _ h => h.perm
  refine hmapM.bind fun all all' hall _ hp => .ok ⟨all, all', rfl, rfl, hp, fun r hr => ?_⟩
  obtain ⟨b, hb, hroute⟩ := exists_left_of_forall₂ (mapM_eq_ok_iff.mp hall) hr
  exact ((delivers_route ((delivers_backends hm).of_eq_ok hbs b hb) id.ns).of_eq_ok hroute).isKey

/-- Reordered ingresses ask for load balancers that are alike, or neither of them for any. -/
theorem Reordered.desiredSpec {d d' : Document} (h : Reordered d d')
    {resolve : String → Document → Except Fault Int} (hr : Respects resolve)
    (instances : List Document) :
    Agree DesiredSpec.Alike (desiredSpec d resolve instances)
      (desiredSpec d' resolve instances) := by
  -- both violate the schema, or neither, though not with the same report
  have hreport := h.sameVerdict.meets Schema.ingress
  rw [← Schema.report_eq_none, ← Schema.report_eq_none] at hreport
  unfold Ingress.desiredSpec
  dsimp only
  cases hv : Schema.ingressReport d with
  | some violations =>
    cases hv' : Schema.ingressReport d' with
    | some violations' => exact .error _ _
    | none => cases hv.symm.trans (hreport.mpr hv')
  | none =>
    rw [Schema.ingressReport, hreport.mp hv]
    dsimp only
    rw [h.scheme defaultScheme]
    split
    · exact .error _ _
    · refine (h.routes ((Schema.report_eq_none _ d).mp hv)).bind fun rs rs' _ _ hrs => ?_
      obtain ⟨all, all', rfl, rfl, hp, hk⟩ := hrs
      refine (agree_resolved hp hr hk).bind fun bs bs' _ _ hports => ?_
      have hempty : bs.isEmpty = bs'.isEmpty := by
        cases bs with
        | nil =>
          cases bs' with
          | nil => rfl
          | cons b' rest => simpa using hports b'.nodePort
        | cons b rest =>
          cases bs' with
          | nil => simpa using hports b.nodePort
          | cons b' rest' => rfl
      rw [hempty]
      split
      · exact .error _ _
      · exact .ok ⟨rfl, h.entries (Or.inl rfl) "", h.entries (Or.inr rfl) "",
          DesiredSpec.nodePorts_eq_of_mem_iff hports, rfl⟩

end Ingress

/-- A service has the same node port for service ports that are the same. -/
theorem Service.respects_nodePort (services : Source) :
    Ingress.Respects (Service.nodePort services) := by
  intro key port port' hkey hs
  have hmatches (candidate : Document) :
      portMatches port candidate = portMatches port' candidate := by
    simp only [portMatches, Document.same_congr hkey hs]
  have hfirst (ports : List Document) : firstNodePort port ports = firstNodePort port' ports := by
    induction ports with
    | nil => rfl
    | cons candidate rest ih => simp only [firstNodePort, hmatches, ih]
  have hrefl {α : Type} (x : Except Fault α) : Agree (· = ·) x x := .refl (fun _ => rfl) x
  unfold Service.nodePort
  refine (hrefl _).bind fun service service' _ _ he => ?_
  subst he
  cases service with
  | none => exact .error _ _
  | some service =>
    refine (hrefl _).bind fun spec spec' _ _ he => ?_
    subst he
    refine (hrefl _).bind fun type type' _ _ he => ?_
    subst he
    dsimp only
    split
    · exact .error _ _
    · refine (hrefl _).bind fun ports ports' _ _ he => ?_
      subst he
      refine (hrefl _).bind fun items items' _ _ he => ?_
      subst he
      rw [hfirst]
      refine (hrefl _).bind fun found found' _ _ he => ?_
      subst he
      cases found with
      | none => exact .error _ _
      | some port => exact hrefl _

end IngressControl
