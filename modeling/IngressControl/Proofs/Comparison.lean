import IngressControl.Proofs.Digests
import IngressControl.Proofs.Fitting
import IngressControl.Proofs.Keys
import IngressControl.Proofs.Ranks

/-! What the comparison of a spec with a load balancer tells. It finds no difference exactly if the
schemes are equal, the subnets are the same in some order, the node ports are those of the backends
in some order, and the security groups are the same when they are run together in their order. -/

namespace IngressControl
open scoped List
open Numeral (Quantity)

namespace Document

theorem less_of_quantities {d e : Document} {a b : Quantity} (ha : d.quantity? = some a)
    (hb : e.quantity? = some b) : less d e = .ok (a.less b) := by
  cases d <;> cases e <;> simp_all [less, quantity?]

theorem same_int_iff (n : Int) (d : Document) :
    (int n).same d = true ↔ d.quantity? = some (.ofInt n) := by
  have hint : (int n).quantity? = some (.ofInt n) := rfl
  cases hq : d.quantity? with
  | none => cases d <;> simp_all [same, quantity?]
  | some q =>
    rw [same_of_quantities hint hq, Quantity.same_iff, Option.some.injEq]
    constructor
    · rintro ⟨rfl, -⟩
      rfl
    · rintro rfl
      exact ⟨rfl, fun h => by cases h⟩

@[simp] theorem string_same_iff (s : String) (d : Document) :
    (string s).same d = true ↔ d = string s := by
  cases d with
  | string t => rw [same, beq_iff_eq, string.injEq, eq_comm]
  | _ => simp [same, quantity?]

/-- A list of documents equals a list of ports if its elements have the values of the ports. -/
theorem sameItems_ints_iff (ports : List Int) (ds : List Document) :
    sameItems (ports.map int) ds = true ↔
      ds.map quantity? = ports.map fun n => some (.ofInt n) := by
  induction ports generalizing ds with
  | nil => cases ds <;> simp [sameItems]
  | cons n ports ih =>
    cases ds with
    | nil => simp [sameItems]
    | cons d ds => simp only [List.map_cons, sameItems, Bool.and_eq_true, same_int_iff, ih,
        List.cons.injEq]

@[simp] theorem sameItems_texts_iff (texts : List String) (ds : List Document) :
    sameItems (texts.map string) ds = true ↔ ds = texts.map string := by
  induction texts generalizing ds with
  | nil => cases ds <;> simp [sameItems]
  | cons s texts ih =>
    cases ds with
    | nil => simp [sameItems]
    | cons d ds =>
      simp only [List.map_cons, sameItems, Bool.and_eq_true, string_same_iff, ih,
        List.cons.injEq]

/-- The place of a finite quantity on the scale. -/
def unitsOf : Option Quantity → Int
  | some (.finite units) => units
  | _ => 0

def units (d : Document) : Int := unitsOf d.quantity?

def Finite (ds : List Document) : Prop := ∀ d ∈ ds, d.quantity? = some (.finite d.units)

theorem finite_of_perm {ds : List Document} {ports : List Int}
    (h : ds.map quantity? ~ ports.map fun n => some (Quantity.ofInt n)) : Finite ds := by
  intro d hd
  have hmem := h.mem_iff.mp (List.mem_map_of_mem hd)
  obtain ⟨n, -, he⟩ := List.mem_map.mp hmem
  rw [units, ← he]
  rfl

theorem ranked_of_finite {ds : List Document} (h : Finite ds) : Ranked units ds := by
  intro x hx y hy
  exact less_of_quantities (h x hx) (h y hy)

/-- Sorting finite numbers puts them in the order of the scale. -/
theorem ordered_sort_of_finite {ds out : List Document} (hf : Finite ds) (h : sort ds = .ok out) :
    Ordered units out := by
  cases ht : allTexts? ds with
  | none => exact ordered_sort (ranked_of_finite hf) ht h
  | some texts =>
    cases texts with
    | nil =>
      obtain rfl := allTexts?_eq_some ht
      have hperm := sort_perm h
      obtain rfl := List.perm_nil.mp hperm
      exact List.Pairwise.nil
    | cons s texts =>
      obtain rfl := allTexts?_eq_some ht
      have hfirst := hf (string s) List.mem_cons_self
      cases hfirst

end Document

open Document (Texts)

namespace DesiredSpec

variable {values : List Document}

/-- Values are the wanted texts exactly if they are these in some order. -/
theorem holdsAll_texts_iff (texts : List String) :
    holdsAll ((sortTexts texts).map .string) values = .ok true ↔ values ~ texts.map .string := by
  constructor
  · intro h
    obtain ⟨sorted, hs, hsame⟩ := map_eq_ok h
    rw [Document.sameItems_texts_iff] at hsame
    calc values
      _ ~ sorted := (Document.sort_perm hs).symm
      _ = (sortTexts texts).map .string := hsame
      _ ~ texts.map .string := (sortTexts_perm texts).map _
  · intro h
    have htexts : Texts (texts.map .string) := Document.texts_map_string texts
    rw [holdsAll, ← htexts.sort_eq_of_perm h.symm]
    exact holdsAll_texts texts

/-- Values are the wanted ports exactly if they are these numbers in some order. -/
theorem holdsAll_ports_iff {ports : List Int} (hp : ports.Pairwise (· < ·)) :
    holdsAll (ports.map .int) values = .ok true ↔
      values.map Document.quantity? ~ ports.map fun n => some (.ofInt n) := by
  constructor
  · intro h
    obtain ⟨sorted, hs, hsame⟩ := map_eq_ok h
    rw [Document.sameItems_ints_iff] at hsame
    calc values.map Document.quantity?
      _ ~ sorted.map Document.quantity? := (Document.sort_perm hs).symm.map _
      _ = ports.map fun n => some (.ofInt n) := hsame
  · intro h
    have hfinite := Document.finite_of_perm h
    obtain ⟨sorted, hs⟩ :=
      Document.exists_sort_of_comparable (Document.ranked_of_finite hfinite).comparable
    have hperm := Document.sort_perm hs
    have hsorted : sorted.map Document.quantity? ~ ports.map fun n => some (.ofInt n) :=
      (hperm.map _).trans h
    -- on the scale both lists are in order, so they are the same there
    have hscale : sorted.map Document.units =
        ports.map fun n => Document.unitsOf (some (.ofInt n)) := by
      have hmap := hsorted.map Document.unitsOf
      rw [List.map_map, List.map_map] at hmap
      refine List.Perm.eq_of_pairwise (fun a b _ _ => le_antisymm) ?_ ?_ hmap
      · exact List.pairwise_map.mpr (Document.ordered_sort_of_finite hfinite hs)
      · refine List.pairwise_map.mpr (hp.imp fun hlt => ?_)
        exact Int.mul_le_mul_of_nonneg_right hlt.le (Int.natCast_nonneg _)
    have hquantities : sorted.map Document.quantity? = ports.map fun n => some (.ofInt n) := by
      calc sorted.map Document.quantity?
        _ = sorted.map fun d => some (.finite d.units) :=
          List.map_congr_left fun d hd => hfinite d (hperm.mem_iff.mp hd)
        _ = (sorted.map Document.units).map fun u => some (.finite u) := by rw [List.map_map]; rfl
        _ = ports.map fun n => some (.ofInt n) := by rw [hscale, List.map_map]; rfl
    rw [holdsAll, hs, Except.map, (Document.sameItems_ints_iff ports sorted).mpr hquantities]

end DesiredSpec

theorem map_string_of_mapM_textOf {ds : List Document} {texts : List String}
    (h : ds.mapM Digest.textOf = .ok texts) : ds = texts.map .string := by
  induction ds generalizing texts with
  | nil =>
    obtain rfl := Except.ok.inj h
    rfl
  | cons d ds ih =>
    rw [List.mapM_cons] at h
    obtain ⟨s, hs, h⟩ := bind_eq_ok h
    obtain ⟨rest, hrest, h⟩ := bind_eq_ok h
    obtain rfl := Except.ok.inj h
    rw [List.map_cons, ← ih hrest]
    cases d with
    | string t => rw [Except.ok.inj hs]
    | _ => cases hs

/-- A digest is taken of texts only. -/
theorem securityGroupsHash_eq_ok_iff (h : Handle) (hash : String) :
    h.securityGroupsHash = .ok hash ↔
      ∃ groups : List String, h.securityGroups = groups.map .string ∧
        Digest.ofCollection groups = hash := by
  constructor
  · intro ho
    obtain ⟨sorted, hs, hrest⟩ := bind_eq_ok ho
    obtain ⟨texts, ht, -⟩ := bind_eq_ok hrest
    have htexts : Texts h.securityGroups := by
      have hsorted := Document.texts_map_string texts
      rw [← map_string_of_mapM_textOf ht] at hsorted
      exact hsorted.mono fun d hd => (Document.sort_perm hs).mem_iff.mpr hd
    obtain ⟨groups, hgroups⟩ := htexts.exists_map
    rw [Handle.securityGroupsHash, hgroups, ofValues_map_string] at ho
    exact ⟨groups, hgroups, Except.ok.inj ho⟩
  · rintro ⟨groups, hgroups, rfl⟩
    rw [Handle.securityGroupsHash, hgroups, ofValues_map_string]

namespace DesiredSpec

variable {spec : DesiredSpec} {h : Handle}

/-- No difference is found if none of the four comparisons finds one. -/
theorem needsUpdate_eq_false_iff : spec.needsUpdate h = .ok false ↔
    (Document.string spec.scheme).same h.scheme = true ∧
      holdsAll ((sortTexts spec.subnets).map .string) h.subnets = .ok true ∧
      h.securityGroupsHash = .ok (Digest.ofCollection spec.securityGroups) ∧
      holdsAll (spec.nodePorts.map .int) h.nodePorts = .ok true := by
  cases hscheme : (Document.string spec.scheme).same h.scheme with
  | false => simp [needsUpdate, hscheme, pure, Except.pure]
  | true =>
    cases hsubnets : holdsAll ((sortTexts spec.subnets).map .string) h.subnets with
    | error fault => simp [needsUpdate, hscheme, hsubnets, Bind.bind, Except.bind]
    | ok subnets =>
      cases subnets with
      | false => simp [needsUpdate, hscheme, hsubnets, Bind.bind, Except.bind, pure, Except.pure]
      | true =>
        cases hgroups : h.securityGroupsHash with
        | error fault =>
          simp [needsUpdate, hscheme, hsubnets, hgroups, Bind.bind, Except.bind]
        | ok hash =>
          by_cases hhash : Digest.ofCollection spec.securityGroups = hash
          · cases hports : holdsAll (spec.nodePorts.map .int) h.nodePorts with
            | error fault =>
              simp [needsUpdate, hscheme, hsubnets, hgroups, hhash, hports, Bind.bind, Except.bind]
            | ok ports =>
              simp [needsUpdate, hscheme, hsubnets, hgroups, hhash, hports, Bind.bind, Except.bind,
                pure, Except.pure]
          · have hne : hash ≠ Digest.ofCollection spec.securityGroups := fun he => hhash he.symm
            simp [needsUpdate, hscheme, hsubnets, hgroups, hhash, hne, Bind.bind, Except.bind,
              pure, Except.pure]

/-- A load balancer is as wanted, except that its security groups may be cut in another way out of
the same text. -/
structure MatchedBy (spec : DesiredSpec) (h : Handle) : Prop where
  scheme : h.scheme = .string spec.scheme
  subnets : h.subnets ~ spec.subnets.map .string
  securityGroups : ∃ groups : List String, h.securityGroups = groups.map .string ∧
    runTogether groups = runTogether spec.securityGroups
  nodePorts : ∃ ports : List Int, ports.Nodup ∧
    (∀ n, n ∈ ports ↔ ∃ b ∈ spec.backends, b.nodePort = n) ∧
    h.nodePorts.map Document.quantity? ~ ports.map fun n => some (.ofInt n)

/-- The digest tells the security groups of a spec, run together, from those of a load balancer. -/
def Distinguishes (spec : DesiredSpec) (h : Handle) : Prop :=
  ∀ groups : List String, h.securityGroups = groups.map .string →
    Digest.MD5.digest (Digest.collectionBytes spec.securityGroups) =
      Digest.MD5.digest (Digest.collectionBytes groups) →
    Digest.collectionBytes spec.securityGroups = Digest.collectionBytes groups

/-- The ports of a handle are up to date if they are the node ports of the backends, each once, in
some order. -/
theorem holdsAll_nodePorts_iff : holdsAll (spec.nodePorts.map .int) h.nodePorts = .ok true ↔
    ∃ ports : List Int, ports.Nodup ∧ (∀ n, n ∈ ports ↔ ∃ b ∈ spec.backends, b.nodePort = n) ∧
      h.nodePorts.map Document.quantity? ~ ports.map fun n => some (.ofInt n) := by
  have hascending := spec.ascending_nodePorts
  have hnodup : spec.nodePorts.Nodup := hascending.imp fun hlt => Int.ne_of_lt hlt
  rw [holdsAll_ports_iff hascending]
  constructor
  · intro hp
    exact ⟨spec.nodePorts, hnodup, spec.mem_nodePorts, hp⟩
  · rintro ⟨ports, hports, hmem, hp⟩
    have hsame : ports ~ spec.nodePorts := by
      rw [List.perm_ext_iff_of_nodup hports hnodup]
      intro n
      rw [hmem, spec.mem_nodePorts]
    exact hp.trans (hsame.map _)

/-- A load balancer that matches is not updated, whatever the digest does. -/
theorem needsUpdate_of_matchedBy (hm : spec.MatchedBy h) : spec.needsUpdate h = .ok false := by
  obtain ⟨groups, hgroups, hjoin⟩ := hm.securityGroups
  have hbytes : Digest.collectionBytes groups = Digest.collectionBytes spec.securityGroups :=
    Digest.collectionBytes_eq_iff.mpr hjoin
  rw [needsUpdate_eq_false_iff]
  refine ⟨?_, (holdsAll_texts_iff _).mpr hm.subnets, ?_, holdsAll_nodePorts_iff.mpr hm.nodePorts⟩
  · exact (Document.string_same_iff _ _).mpr hm.scheme
  · rw [securityGroupsHash_eq_ok_iff]
    exact ⟨groups, hgroups, congrArg Digest.md5Hex hbytes⟩

/-- A handle that needs no update matches the specification if the digest tells its security groups
apart. -/
theorem matchedBy_of_needsUpdate (hd : spec.Distinguishes h)
    (hn : spec.needsUpdate h = .ok false) : spec.MatchedBy h := by
  obtain ⟨hscheme, hsubnets, hhash, hports⟩ := needsUpdate_eq_false_iff.mp hn
  obtain ⟨groups, hgroups, hdigest⟩ := (securityGroupsHash_eq_ok_iff h _).mp hhash
  refine ⟨?_, (holdsAll_texts_iff _).mp hsubnets, ⟨groups, hgroups, ?_⟩,
    holdsAll_nodePorts_iff.mp hports⟩
  · exact (Document.string_same_iff _ _).mp hscheme
  · have hbytes := hd groups hgroups (Digest.digest_eq_of_md5Hex hdigest.symm)
    exact Digest.collectionBytes_eq_iff.mp hbytes.symm

end DesiredSpec

namespace Shop

def guarded : DesiredSpec where
  securityGroups := ["sg-1"]
  backends := [⟨"default/web", .int 80, 30080⟩]

def guardedBy (group : String) : Handle where
  arn := "arn:web"
  name := .string "web"
  securityGroups := [.string group]
  nodePorts := [.int 30080]

theorem distinguishes_guardedBy {group : String}
    (h : Digest.MD5.digest (Digest.collectionBytes ["sg-1"]) =
      Digest.MD5.digest (Digest.collectionBytes [group]) →
      Digest.collectionBytes ["sg-1"] = Digest.collectionBytes [group]) :
    guarded.Distinguishes (guardedBy group) := by
  intro groups hgroups
  have hmap : [group].map Document.string = groups.map Document.string := hgroups
  obtain rfl := List.map_injective_iff.mpr (fun _ _ => Document.string.inj) hmap
  exact h

end Shop

end IngressControl
