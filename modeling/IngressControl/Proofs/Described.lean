import IngressControl.Proofs.Outcome
import IngressControl.Proofs.Texts
import IngressControl.Discovery.Assembly

/-! Descriptions of load balancers. A description reads back as the load balancer that it was
written for, with the owner that the tags name. -/

namespace IngressControl
open scoped List

/-- The value of a tag of a load balancer; null without it. -/
def Handle.tag (b : Handle) (key : String) : Document := (Ledger.get? key b.tags).getD .null

def Handle.owner (b : Handle) : Owner := .ofTags (b.tag namespaceTag) (b.tag ingressTag)

namespace Discovery

section Tags

variable {tags : List (String × Document)}

def written (tags : List (String × Document)) : Tags :=
  tags.map fun tag => (.string tag.1, tag.2)

theorem put_written {key : String} {value : Document} (h : key ∉ Ledger.keys tags) :
    Tags.put (.string key) value (written tags) = written (tags ++ [(key, value)]) := by
  induction tags with
  | nil => rfl
  | cons tag rest ih =>
    obtain ⟨k, v⟩ := tag
    simp only [Ledger.keys, List.map_cons, List.mem_cons, not_or] at h
    have hk : ¬ (Document.string k).same (.string key) = true := by simp [Ne.symm h.1]
    have hrest := ih h.2
    simp only [written] at hrest
    simp only [written, List.cons_append, List.map_cons, Tags.put, if_neg hk, hrest]

theorem foldl_put_written {kept : List (String × Document)}
    (hn : (Ledger.keys (kept ++ tags)).Nodup) :
    (written tags).foldl (fun tags tag => Tags.put tag.1 tag.2 tags) (written kept) =
      written (kept ++ tags) := by
  induction tags generalizing kept with
  | nil => rw [List.append_nil]; rfl
  | cons tag rest ih =>
    have hk : tag.1 ∉ Ledger.keys kept := by
      rw [Ledger.keys, List.map_append, List.nodup_append] at hn
      exact fun hm => hn.2.2 tag.1 hm tag.1 (by simp) rfl
    rw [List.append_cons] at hn ⊢
    rw [← ih hn, ← put_written hk]
    rfl

/-- The tags of a description are read back. -/
theorem mapM_entry (tags : List (String × Document)) :
    (tags.map fun tag => Document.object [("Key", .string tag.1), ("Value", tag.2)]).mapM
      Tags.entry = .ok (written tags) := by
  induction tags with
  | nil => rfl
  | cons tag rest ih =>
    rw [List.map_cons, List.mapM_cons, ih]
    rfl

/-- The tags of a description are those of the load balancer. -/
theorem ofDescription_tags {b : Handle} (hn : (Ledger.keys b.tags).Nodup) :
    Tags.ofDescription (Cloud.description b) = .ok (written b.tags) := by
  have hfield : (Cloud.description b).field? "Tags" = .ok (some (.array (b.tags.map fun tag =>
      .object [("Key", .string tag.1), ("Value", tag.2)]))) := rfl
  have helements (items : List Document) : (Document.array items).elementsOrNone = .ok items := by
    cases items <;> rfl
  have hfold : (written b.tags).foldl (fun tags tag => Tags.put tag.1 tag.2 tags) (written []) =
      written b.tags := foldl_put_written hn
  simp only [Tags.ofDescription, hfield, Bind.bind, Except.bind, Option.getD_some, helements,
    mapM_entry]
  exact congrArg Except.ok hfold

theorem value_written (tags : List (String × Document)) (key : String) :
    Tags.value (written tags) key = (Ledger.get? key tags).getD .null := by
  induction tags with
  | nil => rfl
  | cons tag rest ih =>
    obtain ⟨k, v⟩ := tag
    simp only [Tags.value, written] at ih
    by_cases hk : k = key
    · simp [Tags.value, written, Ledger.get?, hk, Document.same]
    · have hne : (Document.string k).same (.string key) = false := by
        simpa [Document.same] using hk
      simp only [Tags.value, written, Ledger.get?, hk, if_false, List.map_cons, List.find?_cons,
        hne]
      exact ih

theorem named_written (tags : List (String × Document)) : (written tags).named = tags := by
  rw [Tags.named, written, List.map_map]
  exact List.map_id tags

end Tags

theorem value_tags (b : Handle) (key : String) : Tags.value (written b.tags) key = b.tag key :=
  value_written b.tags key

def found (b : Handle) (instances : List Document) : Resource where
  owner := b.owner
  handle := some { b with instances := instances }
  status := .discovered

/-- A description reads back as the load balancer, if the tags name an ingress and the targets can
be sorted. -/
theorem resourceOf_description {b : Handle} (hn : (Ledger.keys b.tags).Nodup)
    (targets : List Document) :
    resourceOf (Cloud.description b) (.string b.arn) targets =
      if (b.tag namespaceTag).isVoid || (b.tag ingressTag).isVoid then
        .error (.identityTags b.name.display)
      else (Document.sort targets).map (found b) := by
  have hlabel : ((Cloud.description b).field? "LoadBalancerName") = .ok (some b.name) := rfl
  have harn : Discovered.fieldOf (Cloud.description b) b.name.display "LoadBalancerArn" =
    .ok (.string b.arn) := rfl
  have hname : Discovered.fieldOf (Cloud.description b) b.name.display "LoadBalancerName" =
    .ok b.name := rfl
  have hdns : (Cloud.description b).field? "DNSName" = .ok (some b.dnsName) := rfl
  have hscheme : (Cloud.description b).field? "Scheme" = .ok (some b.scheme) := rfl
  have hsubnets : Discovered.elementsOf (Cloud.description b) "Subnets" = .ok b.subnets := rfl
  have hgroups : Discovered.elementsOf (Cloud.description b) "SecurityGroups" =
    .ok b.securityGroups := rfl
  have hports : Discovered.elementsOf (Cloud.description b) "NodePorts" = .ok b.nodePorts := rfl
  simp only [resourceOf, Discovered.ofDescription, ofDescription_tags hn, value_tags, hlabel,
    Bind.bind, Except.bind, Option.getD_some]
  split
  · rfl
  · simp only [harn, hname, hdns, hscheme, hsubnets, hgroups, hports, named_written]
    cases Document.sort targets with
    | error fault => rfl
    | ok sorted => rfl

end Discovery

end IngressControl
