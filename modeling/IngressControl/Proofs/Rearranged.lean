import IngressControl.Engine.Plan
import IngressControl.Proofs.Fitting
import IngressControl.Proofs.Keys
import IngressControl.Proofs.Multiplicity
import IngressControl.Proofs.Verdicts

/-! Ingresses that differ only in the order of their rules and paths and of the entries of their
lists. They have the same identity and ask for the same load balancer, whose subnets and security
groups come in another order at most. -/

namespace IngressControl
open scoped List
open Document (Fieldwise Itemwise SameEntries under)

structure DesiredSpec.Alike (a b : DesiredSpec) : Prop where
  scheme : a.scheme = b.scheme
  subnets : a.subnets ~ b.subnets
  securityGroups : a.securityGroups ~ b.securityGroups
  nodePorts : a.nodePorts = b.nodePorts
  instances : a.instances = b.instances

/-- Sorted ports depend on the ports only, not on their order. -/
theorem sortPorts_eq_of_perm {xs ys : List Int} (h : xs ~ ys) : sortPorts xs = sortPorts ys := by
  refine List.Perm.eq_of_pairwise (fun a b _ _ hab hba => le_antisymm hab hba)
    (pairwise_sortPorts xs) (pairwise_sortPorts ys) ?_
  exact (List.mergeSort_perm xs _).trans (h.trans (List.mergeSort_perm ys _).symm)

namespace DesiredSpec

/-- The node ports are those of the backends, whatever their order and however often each. -/
theorem nodePorts_eq_of_mem_iff {a b : DesiredSpec} (h : ∀ n, n ∈ a.backends.map Backend.nodePort ↔
    n ∈ b.backends.map Backend.nodePort) : a.nodePorts = b.nodePorts := by
  apply sortPorts_eq_of_perm
  rw [List.perm_ext_iff_of_nodup (nodup_eraseDups _) (nodup_eraseDups _)]
  simpa only [List.mem_eraseDups] using h

/-- Alike specifications need the same update. -/
theorem Alike.needsUpdate {a b : DesiredSpec} (h : Alike a b) (handle : Handle) :
    a.needsUpdate handle = b.needsUpdate handle := by
  have hgroups : Digest.ofCollection a.securityGroups = Digest.ofCollection b.securityGroups :=
    Digest.ofCollection_eq_of_perm h.securityGroups
  simp only [DesiredSpec.needsUpdate, h.scheme, sortTexts_eq_of_perm h.subnets, hgroups,
    h.nodePorts]

end DesiredSpec

namespace Ingress

def RuleReordered : Document → Document → Prop :=
  Fieldwise (under "http" (Fieldwise (under "paths" (Itemwise Eq))))

def SpecReordered : Document → Document → Prop :=
  Fieldwise (under "rules" (Itemwise RuleReordered))

def AnnotationReordered (key : String) (d d' : Document) : Prop :=
  if key = subnetsAnnotation ∨ key = securityGroupsAnnotation then SameEntries d d' else d = d'

def MetadataReordered : Document → Document → Prop :=
  Fieldwise (under "annotations" (Fieldwise AnnotationReordered))

def PartReordered (key : String) : Document → Document → Prop :=
  if key = "metadata" then MetadataReordered else if key = "spec" then SpecReordered else Eq

/-- Two ingresses differ only in the order of rules and paths, and in that of the entries of the
subnets and of the security groups. -/
def Reordered : Document → Document → Prop := Fieldwise PartReordered

theorem AnnotationReordered.refl (key : String) (d : Document) : AnnotationReordered key d d := by
  unfold AnnotationReordered
  split
  · exact .same d
  · rfl

theorem PartReordered.refl (key : String) (d : Document) : PartReordered key d d := by
  unfold PartReordered
  split
  · exact .same d
  · split
    · exact .same d
    · rfl

section Verdict

theorem sameVerdict_under {key k : String} {R : Document → Document → Prop}
    (hr : ∀ d d', R d d' → Schema.SameVerdict d d') {d d' : Document} (h : under key R k d d') :
    Schema.SameVerdict d d' := by
  unfold under at h
  split at h
  · exact hr d d' h
  · exact h ▸ .refl d

/-- No schema tells reordered ingresses apart. -/
theorem Reordered.sameVerdict {d d' : Document} (h : Reordered d d') : Schema.SameVerdict d d' := by
  -- from the entries of an annotation and the paths of a rule up to the whole ingress
  have hannotation (key : String) (d d' : Document) (h : AnnotationReordered key d d') :
      Schema.SameVerdict d d' := by
    unfold AnnotationReordered at h
    split at h
    · exact Schema.sameVerdict_of_entries h
    · exact h ▸ .refl d
  have hmetadata (d d' : Document) (h : MetadataReordered d d') : Schema.SameVerdict d d' :=
    Schema.sameVerdict_of_fieldwise (fun _ _ _ => sameVerdict_under fun _ _ =>
      Schema.sameVerdict_of_fieldwise hannotation) h
  have hpaths (d d' : Document) (h : Itemwise Eq d d') : Schema.SameVerdict d d' :=
    Schema.sameVerdict_of_itemwise (fun d d' (h : d = d') => h ▸ .refl d) h
  have hrule (d d' : Document) (h : RuleReordered d d') : Schema.SameVerdict d d' :=
    Schema.sameVerdict_of_fieldwise (fun _ _ _ => sameVerdict_under fun _ _ =>
      Schema.sameVerdict_of_fieldwise fun _ _ _ => sameVerdict_under hpaths) h
  have hspec (d d' : Document) (h : SpecReordered d d') : Schema.SameVerdict d d' :=
    Schema.sameVerdict_of_fieldwise (fun _ _ _ => sameVerdict_under fun _ _ =>
      Schema.sameVerdict_of_itemwise hrule) h
  refine Schema.sameVerdict_of_fieldwise (fun key d d' hpart => ?_) h
  unfold PartReordered at hpart
  split at hpart
  · exact hmetadata d d' hpart
  · split at hpart
    · exact hspec d d' hpart
    · exact hpart ▸ .refl d

end Verdict

section Metadata

variable {d d' : Document}

theorem fields_refl {R : String → Document → Document → Prop} (hr : ∀ key d, R key d d)
    (fields : List (String × Document)) :
    List.Forall₂ (fun x y => x.1 = y.1 ∧ R x.1 x.2 y.2) fields fields :=
  List.forall₂_same.mpr fun _ _ => ⟨rfl, hr _ _⟩

theorem under_refl {key : String} {R : Document → Document → Prop} (hr : ∀ d, R d d) (k : String)
    (d : Document) : under key R k d d := by
  unfold under
  split
  · exact hr d
  · rfl

theorem Reordered.metadata (h : Reordered d d') :
    List.Forall₂ (fun x y => x.1 = y.1 ∧
        under "annotations" (Fieldwise AnnotationReordered) x.1 x.2 y.2)
      (metadata d) (metadata d') := by
  have hsame : ∀ key d, under "annotations" (Fieldwise AnnotationReordered) key d d :=
    under_refl fun d => .same d
  cases h with
  | same => exact fields_refl hsame _
  | fields hf =>
    simp only [Ingress.metadata]
    rcases Document.get?_of_fields hf "metadata" with ⟨hx, hy⟩ | ⟨v, w, hx, hy, hv⟩
    · rw [hx, hy]
      exact .nil
    · rw [hx, hy]
      have hv : MetadataReordered v w := hv
      cases hv with
      | same => exact fields_refl hsame _
      | fields hm => exact hm

theorem Reordered.annotations (h : Reordered d d') :
    List.Forall₂ (fun x y => x.1 = y.1 ∧ AnnotationReordered x.1 x.2 y.2)
      (annotations d) (annotations d') := by
  simp only [Ingress.annotations]
  rcases Document.get?_of_fields h.metadata "annotations" with ⟨hx, hy⟩ | ⟨v, w, hx, hy, hv⟩
  · rw [hx, hy]
    exact .nil
  · rw [hx, hy]
    rw [Document.under_self] at hv
    cases hv with
    | same => exact fields_refl AnnotationReordered.refl _
    | fields hm => exact hm

theorem annotationReordered_of_ne {key : String} (hs : key ≠ subnetsAnnotation)
    (hg : key ≠ securityGroupsAnnotation) : AnnotationReordered key = Eq := by
  funext d d'
  simp [AnnotationReordered, hs, hg]

/-- Reordering an ingress keeps its identity. -/
theorem Reordered.identity (h : Reordered d d') : identity d = identity d' := by
  have hfield {key : String} (hne : key ≠ "annotations") :
      Ledger.get? key (Ingress.metadata d) = Ledger.get? key (Ingress.metadata d') :=
    Document.get?_eq_of_fields h.metadata (Document.under_of_ne hne _)
  simp only [Ingress.identity, hfield (show "name" ≠ "annotations" by decide),
    hfield (show "namespace" ≠ "annotations" by decide)]

theorem Reordered.owner? (h : Reordered d d') (context : Context) :
    Engine.owner? context d = Engine.owner? context d' := by
  have hne : AnnotationReordered classAnnotation = Eq :=
    annotationReordered_of_ne (by decide) (by decide)
  have hclass : hasClass d context.ingressClass = hasClass d' context.ingressClass := by
    rw [hasClass, hasClass, Document.get?_eq_of_fields h.annotations hne]
  rw [Engine.owner?, Engine.owner?, hclass, h.identity]

/-- Reordering an ingress keeps its scheme. -/
theorem Reordered.scheme (h : Reordered d d') (byDefault : String) :
    noted d schemeAnnotation byDefault = noted d' schemeAnnotation byDefault := by
  have hne : AnnotationReordered schemeAnnotation = Eq :=
    annotationReordered_of_ne (by decide) (by decide)
  simp only [noted, Document.get?_eq_of_fields h.annotations hne]

/-- The lists in the annotations of a reordered ingress have the same entries in some order. -/
theorem Reordered.entries (h : Reordered d d') {key : String}
    (hk : key = subnetsAnnotation ∨ key = securityGroupsAnnotation) (byDefault : String) :
    Text.Entries.parse (noted d key byDefault) ~ Text.Entries.parse (noted d' key byDefault) := by
  have hvalue := Document.getD_of_fields h.annotations (.string byDefault)
    (AnnotationReordered.refl key _)
  rw [AnnotationReordered, if_pos hk] at hvalue
  exact hvalue.parse

end Metadata

end Ingress

end IngressControl
