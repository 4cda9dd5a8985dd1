import IngressControl.Naming
import IngressControl.Proofs.Pieces
import Mathlib.Data.Set.Function

/-! Keys of ingresses. Each text with a slash in it is the key of exactly one identity without a
slash in its namespace. That identity is what the key is read as, unless one of its parts is empty,
and no other key is read at all. -/

namespace IngressControl.Identity

/-- An identity that its key is read as: neither part is empty, and the first slash of the key is
the one behind the namespace. -/
structure Proper (id : Identity) : Prop where
  ns : id.ns ≠ ""
  slash : '/' ∉ id.ns.toList
  name : id.name ≠ ""

variable {id id' : Identity} {key : String}

theorem toList_key (id : Identity) : id.key.toList = id.ns.toList ++ '/' :: id.name.toList := by
  simp [Identity.key]

/-- The key of an ingress tells the ingress, if no slash stands in its namespace. -/
theorem eq_of_key_eq (h : '/' ∉ id.ns.toList) (h' : '/' ∉ id'.ns.toList)
    (hkey : id.key = id'.key) : id = id' := by
  have hlist := congrArg String.toList hkey
  rw [toList_key, toList_key] at hlist
  obtain ⟨hns, hname⟩ := Text.eq_of_append_sep h h' hlist
  cases id
  cases id'
  simp_all [String.toList_inj]

/-- A text with a slash in it is the key of what stands before and behind the first one. -/
theorem exists_key_eq (h : '/' ∈ key.toList) :
    ∃ id : Identity, '/' ∉ id.ns.toList ∧ id.key = key := by
  obtain ⟨ns, name, hkey, hns⟩ := List.eq_append_cons_of_mem h
  refine ⟨⟨String.ofList ns, String.ofList name⟩, ?_, ?_⟩
  · rw [String.toList_ofList]
    exact hns
  · apply String.toList_inj.mp
    rw [toList_key, String.toList_ofList, String.toList_ofList, hkey]

theorem slash_mem_key (id : Identity) : '/' ∈ id.key.toList := by
  rw [toList_key]
  exact List.mem_append_right _ List.mem_cons_self

/-- Without a slash in the namespaces identities and texts with a slash in them correspond. -/
theorem bijOn_key :
    Set.BijOn Identity.key {id | '/' ∉ id.ns.toList} {key | '/' ∈ key.toList} :=
  ⟨fun id _ => slash_mem_key id, fun _ h _ h' => eq_of_key_eq h h', fun _ h => exists_key_eq h⟩

section Reading

theorem bne_slash : (fun c : Char => c != '/') = fun c => decide (c ≠ '/') := by
  funext c
  rw [bne, beq_eq_decide, decide_not]

theorem ofKey_of_not_mem (h : '/' ∉ key.toList) : ofKey key = .error (.resourceKey key) := by
  rw [ofKey, bne_slash, Text.dropWhile_of_not_mem h]

/-- A key is read as the identity that it belongs to, unless a part of it is empty. -/
theorem ofKey_key (h : '/' ∉ id.ns.toList) : ofKey id.key =
    if id.ns = "" ∨ id.name = "" then .error (.resourceKey id.key) else .ok id := by
  rw [ofKey, bne_slash, toList_key, Text.takeWhile_append_sep h, Text.dropWhile_append_sep h]
  simp only [List.isEmpty_iff, Bool.or_eq_true, String.toList_eq_nil_iff, String.ofList_toList]

/-- A key gives an identity exactly if it is the key of that proper identity. -/
theorem ofKey_eq_ok_iff : ofKey key = .ok id ↔ id.Proper ∧ id.key = key := by
  constructor
  · intro h
    by_cases hslash : '/' ∈ key.toList
    · obtain ⟨id', hns, rfl⟩ := exists_key_eq hslash
      rw [ofKey_key hns] at h
      split at h
      · cases h
      · rename_i hparts
        obtain rfl := Except.ok.inj h
        exact ⟨⟨fun he => hparts (Or.inl he), hns, fun he => hparts (Or.inr he)⟩, rfl⟩
    · rw [ofKey_of_not_mem hslash] at h
      cases h
  · rintro ⟨hid, rfl⟩
    rw [ofKey_key hid.slash, if_neg (not_or.mpr ⟨hid.ns, hid.name⟩)]

/-- A key that cannot be read is named in the fault. -/
theorem fault_of_ofKey {fault : Fault} (h : ofKey key = .error fault) :
    fault = .resourceKey key := by
  by_cases hslash : '/' ∈ key.toList
  · obtain ⟨id, hns, rfl⟩ := exists_key_eq hslash
    rw [ofKey_key hns] at h
    split at h
    · exact (Except.error.inj h).symm
    · cases h
  · rw [ofKey_of_not_mem hslash] at h
    exact (Except.error.inj h).symm

/-- Every other key is refused. -/
theorem ofKey_eq_error_iff {fault : Fault} : ofKey key = .error fault ↔
    fault = .resourceKey key ∧ ∀ id : Identity, id.Proper → id.key ≠ key := by
  constructor
  · refine fun h => ⟨fault_of_ofKey h, fun id hid hkey => ?_⟩
    rw [ofKey_eq_ok_iff.mpr ⟨hid, hkey⟩] at h
    cases h
  · rintro ⟨rfl, hnone⟩
    cases hread : ofKey key with
    | error fault => rw [fault_of_ofKey hread]
    | ok id =>
      obtain ⟨hid, hkey⟩ := ofKey_eq_ok_iff.mp hread
      exact absurd hkey (hnone id hid)

/-- A key is read as an identity exactly if that identity has the key, with nothing empty and no
slash in its namespace; every other key is a fault in a value. Such an identity is what its key is
read as, and without slashes in the namespaces different identities have different keys. -/
theorem ofKey_inverts_key :
    (∀ key id, ofKey key = .ok id ↔ id.Proper ∧ id.key = key) ∧
      (∀ id : Identity, ofKey id.key = .ok id ↔ id.Proper) ∧
      (∀ key fault, ofKey key = .error fault ↔
        fault = .resourceKey key ∧ ∀ id : Identity, id.Proper → id.key ≠ key) ∧
      (∀ key, (Fault.resourceKey key).isValue = true) ∧
      Set.BijOn Identity.key {id | '/' ∉ id.ns.toList} {key | '/' ∈ key.toList} := by
  refine ⟨fun key id => ofKey_eq_ok_iff, fun id => ?_, fun key fault => ofKey_eq_error_iff,
    fun key => rfl, bijOn_key⟩
  rw [ofKey_eq_ok_iff]
  exact and_iff_left rfl

/-- A name may hold slashes. -/
example : ofKey "shop/a/b" = .ok ⟨"shop", "a/b"⟩ := by decide +kernel

end Reading

end IngressControl.Identity
