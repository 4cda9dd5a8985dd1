import IngressControl.Proofs.Digests
import IngressControl.Proofs.Texts

/-! What the digest of a collection depends on. The order of the texts does not matter, and how
often each of them occurs does, unless it is empty: with one more of it there are more bytes behind
the digest, so the digest stays the same only by a collision. -/

namespace IngressControl.Digest
open scoped List

/-- Two different byte strings with one digest. -/
def Collide (a b : List UInt8) : Prop := a ≠ b ∧ MD5.digest a = MD5.digest b

theorem md5Hex_eq_iff {a b : List UInt8} : md5Hex a = md5Hex b ↔ MD5.digest a = MD5.digest b := by
  constructor
  · exact digest_eq_of_md5Hex
  · intro h
    rw [md5Hex, h, md5Hex]

theorem bytesOf_eq_nil_iff {s : String} : bytesOf s = [] ↔ s = "" := by
  constructor
  · exact fun h => bytesOf_injective (t := "") h
  · rintro rfl
    rfl

/-- The empty text comes first. -/
theorem sortTexts_empty_cons (texts : List String) :
    sortTexts ("" :: texts) = "" :: sortTexts texts := by
  have hfirst : ∀ s ∈ sortTexts texts, "" ≤ s := fun s _ hlt => List.not_lt_nil s.toList hlt
  have hsorted : ("" :: sortTexts texts).Pairwise (· ≤ ·) :=
    List.pairwise_cons.mpr ⟨hfirst, pairwise_sortTexts texts⟩
  have hperm : sortTexts ("" :: texts) ~ "" :: sortTexts texts :=
    (sortTexts_perm _).trans ((sortTexts_perm texts).symm.cons "")
  exact hperm.eq_of_pairwise (fun a b _ _ hab hba => String.le_antisymm hab hba)
    (pairwise_sortTexts _) hsorted

section Arrangements

variable {xs ys : List String} {v : String}

theorem collectionBytes_eq_of_perm (h : xs ~ ys) : collectionBytes xs = collectionBytes ys := by
  rw [collectionBytes, sortTexts_eq_of_perm h, collectionBytes]

/-- The digest of a collection does not depend on its order. -/
theorem ofCollection_eq_of_perm (h : xs ~ ys) : ofCollection xs = ofCollection ys := by
  rw [ofCollection, collectionBytes_eq_of_perm h, ofCollection]

/-- Up to their order the bytes are those of the texts as they are given. -/
theorem collectionBytes_perm (texts : List String) :
    collectionBytes texts ~ texts.flatMap bytesOf :=
  (sortTexts_perm texts).flatMap_right bytesOf

/-- One more text changes the bytes unless it is empty. Its own bytes may stand anywhere among the
others, and the texts next to it run into it, but there are more bytes in all. -/
theorem collectionBytes_eq_iff_of_perm_cons (h : ys ~ v :: xs) :
    collectionBytes ys = collectionBytes xs ↔ v = "" := by
  rw [collectionBytes_eq_of_perm h]
  constructor
  · intro heq
    have hlength := congrArg List.length heq
    rw [(collectionBytes_perm _).length_eq, (collectionBytes_perm _).length_eq, List.flatMap_cons,
      List.length_append] at hlength
    have hnone : (bytesOf v).length = 0 := by omega
    exact bytesOf_eq_nil_iff.mp (List.length_eq_zero_iff.mp hnone)
  · rintro rfl
    rw [collectionBytes, sortTexts_empty_cons, List.flatMap_cons]
    rfl

end Arrangements

theorem ofCollection_eq_iff_collide {xs ys : List String}
    (hne : collectionBytes ys ≠ collectionBytes xs) :
    ofCollection ys = ofCollection xs ↔ Collide (collectionBytes ys) (collectionBytes xs) := by
  rw [ofCollection, ofCollection, md5Hex_eq_iff, Collide]
  exact (and_iff_right hne).symm

end IngressControl.Digest
