import IngressControl.Naming
import IngressControl.Proofs.Digests
import IngressControl.Proofs.IdentityKeys

/-! Names of load balancers. The name of a cluster, a hyphen and twenty digits always fit, so no
name is cut off, and the hyphen tells where the name of the cluster ends. Names of different
clusters are different, and those of one cluster are unless the digests of two different keys begin
alike. -/

namespace IngressControl

/-- A cluster name is accepted exactly if it is not empty, not too long and free of hyphens. -/
theorem validateClusterName_eq_ok_iff {cluster accepted : String} :
    validateClusterName cluster = .ok accepted ↔ accepted = cluster ∧ cluster ≠ "" ∧
      cluster.length ≤ maxClusterName ∧ '-' ∉ cluster.toList := by
  rw [validateClusterName]
  by_cases hempty : cluster.isEmpty = true
  · have heq : cluster = "" := by simpa using hempty
    simp [heq]
  · have hne : cluster ≠ "" := by simpa using hempty
    rw [if_neg hempty]
    by_cases hlong : maxClusterName < cluster.length
    · rw [if_pos hlong]
      simp [Nat.not_le.mpr hlong]
    · rw [if_neg hlong]
      by_cases hhyphen : cluster.toList.contains '-' = true
      · rw [if_pos hhyphen]
        simp [List.contains_iff_mem.mp hhyphen]
      · rw [if_neg hhyphen, Except.ok.injEq]
        have hnot : '-' ∉ cluster.toList := fun hm => hhyphen (List.contains_iff_mem.mpr hm)
        simp [hne, Nat.not_lt.mp hlong, hnot, eq_comm]

namespace Identity

def digits (id : Identity) : List Char :=
  (Digest.md5Hex (Digest.bytesOf (id.ns ++ "/" ++ id.name))).toList.take 20

@[simp] theorem length_digits (id : Identity) : id.digits.length = 20 := by
  simp [digits]

theorem mem_hexAlphabet_of_mem_digits {id : Identity} {c : Char} (h : c ∈ id.digits) :
    c ∈ Digest.hexAlphabet :=
  Digest.mem_hexAlphabet_of_mem_md5Hex (List.mem_of_mem_take h)

theorem hyphen_not_mem_digits (id : Identity) : '-' ∉ id.digits := fun h =>
  absurd (mem_hexAlphabet_of_mem_digits h) (by decide)

end Identity

/-- A name is made of the cluster, a hyphen and the first digits of the digest of the ingress, all
of which fit. -/
structure NamedFor (cluster : String) (id : Identity) (name : String) : Prop where
  spelled : name = cluster ++ "-" ++ String.ofList id.digits
  digits : id.digits.length = 20 ∧ ∀ c ∈ id.digits, c ∈ Digest.hexAlphabet
  short : name.length ≤ 32
  hyphen : name.toList.count '-' = 1
  before : name.toList.takeWhile (· ≠ '-') = cluster.toList

section Names

variable {cluster : String}

/-- The cut at the end of a name removes nothing. -/
theorem toList_loadBalancerName (hc : validateClusterName cluster = .ok cluster) (id : Identity) :
    (loadBalancerName cluster id).toList = cluster.toList ++ '-' :: id.digits := by
  obtain ⟨-, -, hlength, -⟩ := validateClusterName_eq_ok_iff.mp hc
  have hfits : (cluster.toList ++ '-' :: id.digits).length ≤ maxLoadBalancerName := by
    rw [List.length_append, List.length_cons, id.length_digits, String.length_toList]
    have hmax : maxClusterName + (20 + 1) = maxLoadBalancerName := rfl
    omega
  rw [loadBalancerName, nameOfKey, String.toList_ofList]
  exact List.take_of_length_le hfits

/-- The name of a load balancer has the form of a name for its cluster and identity. -/
theorem namedFor_loadBalancerName (hc : validateClusterName cluster = .ok cluster)
    (id : Identity) : NamedFor cluster id (loadBalancerName cluster id) := by
  have hlist := toList_loadBalancerName hc id
  obtain ⟨-, -, hlength, hhyphen⟩ := validateClusterName_eq_ok_iff.mp hc
  refine ⟨?_, ⟨id.length_digits, fun _ => Identity.mem_hexAlphabet_of_mem_digits⟩, ?_, ?_, ?_⟩
  · apply String.toList_inj.mp
    rw [hlist]
    simp
  · rw [← String.length_toList, hlist, List.length_append, List.length_cons, id.length_digits,
      String.length_toList]
    have hmax : maxClusterName = 11 := rfl
    omega
  · rw [hlist, List.count_append, List.count_cons_self, List.count_eq_zero.mpr hhyphen,
      List.count_eq_zero.mpr id.hyphen_not_mem_digits]
  · rw [hlist, Text.takeWhile_append_sep hhyphen]

/-- Equal names come from one cluster and equal digits. -/
theorem eq_of_loadBalancerName_eq {cluster' : String} {id id' : Identity}
    (hc : validateClusterName cluster = .ok cluster)
    (hc' : validateClusterName cluster' = .ok cluster')
    (h : loadBalancerName cluster id = loadBalancerName cluster' id') :
    cluster = cluster' ∧ id.digits = id'.digits := by
  obtain ⟨-, -, -, hhyphen⟩ := validateClusterName_eq_ok_iff.mp hc
  obtain ⟨-, -, -, hhyphen'⟩ := validateClusterName_eq_ok_iff.mp hc'
  have hlist := congrArg String.toList h
  rw [toList_loadBalancerName hc, toList_loadBalancerName hc'] at hlist
  -- neither cluster name holds the hyphen at which both names are cut
  obtain ⟨hcluster, hdigits⟩ := Text.eq_of_append_sep hhyphen hhyphen' hlist
  exact ⟨String.toList_inj.mp hcluster, hdigits⟩

end Names

namespace Shop

end Shop

end IngressControl
