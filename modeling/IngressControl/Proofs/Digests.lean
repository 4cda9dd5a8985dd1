import IngressControl.Digest
import Mathlib.Data.List.Basic

/-! What a digest of a collection tells. Its hexadecimal form tells the bytes of the digest, and the
bytes behind it tell the texts of the collection run together, in their order. Where one text ends
and the next one begins they do not tell, unless all texts are of one length. -/

namespace IngressControl
open scoped List

/-- The texts of a collection in their order, run together. -/
def runTogether (texts : List String) : String := String.join (sortTexts texts)

/-- What is made of pieces of one length tells the pieces. -/
theorem eq_of_flatMap {α β : Type} {f : α → List β} {k : Nat} (hk : 0 < k)
    (hf : ∀ a b, f a = f b → a = b) {xs ys : List α} (hx : ∀ a ∈ xs, (f a).length = k)
    (hy : ∀ b ∈ ys, (f b).length = k) (h : xs.flatMap f = ys.flatMap f) : xs = ys := by
  have hcons {a : α} {as : List α} (ha : (f a).length = k) : (a :: as).flatMap f ≠ [] := by
    rw [List.flatMap_cons]
    intro hnil
    have hlength := congrArg List.length (List.append_eq_nil_iff.mp hnil).1
    rw [ha, List.length_nil] at hlength
    omega
  induction xs generalizing ys with
  | nil =>
    cases ys with
    | nil => rfl
    | cons y ys => exact absurd h.symm (hcons (hy y List.mem_cons_self))
  | cons x xs ih =>
    cases ys with
    | nil => exact absurd h (hcons (hx x List.mem_cons_self))
    | cons y ys =>
      have hlength : (f x).length = (f y).length := by
        rw [hx x List.mem_cons_self, hy y List.mem_cons_self]
      rw [List.flatMap_cons, List.flatMap_cons] at h
      obtain ⟨hfirst, hrest⟩ := List.append_inj h hlength
      have htail := ih (fun a ha => hx a (List.mem_cons_of_mem _ ha))
        (fun b hb => hy b (List.mem_cons_of_mem _ hb)) hrest
      rw [hf x y hfirst, htail]

theorem runTogether_of_sorted {texts : List String} (h : texts.Pairwise (· ≤ ·)) :
    runTogether texts = String.join texts := by
  have hsorted : sortTexts texts = texts :=
    List.mergeSort_of_pairwise (h.imp fun hle => decide_eq_true hle)
  rw [runTogether, hsorted]

namespace Digest

theorem hexDigit_injective : ∀ m < 16, ∀ n < 16, hexDigit m = hexDigit n → m = n := by decide

theorem hexByte_injective {a b : UInt8} (h : hexByte a = hexByte b) : a = b := by
  have ha := a.toNat_lt
  have hb := b.toNat_lt
  simp only [hexByte, List.cons.injEq, and_true] at h
  have hhigh := hexDigit_injective _ (by omega) _ (by omega) h.1
  have hlow := hexDigit_injective _ (by omega) _ (by omega) h.2
  apply UInt8.toNat_inj.mp
  omega

/-- Two byte strings have the same hexadecimal digest only if they have the same digest. -/
theorem digest_eq_of_md5Hex {a b : List UInt8} (h : md5Hex a = md5Hex b) :
    MD5.digest a = MD5.digest b :=
  eq_of_flatMap (by decide : 0 < 2) (fun _ _ => hexByte_injective) (fun _ _ => rfl) (fun _ _ => rfl)
    (String.ofList_injective h)

def hexAlphabet : List Char := "0123456789abcdef".toList

theorem hexDigit_mem_hexAlphabet : ∀ n < 16, hexDigit n ∈ hexAlphabet := by decide

/-- A digest is written in thirty-two hexadecimal digits. -/
@[simp] theorem length_md5Hex (message : List UInt8) : (md5Hex message).toList.length = 32 := by
  have hbytes : ∀ b ∈ MD5.digest message, (hexByte b).length = 2 := fun _ _ => rfl
  rw [md5Hex, String.toList_ofList, List.length_flatMap, List.map_congr_left hbytes,
    List.map_const', List.sum_replicate_nat, MD5.length_digest]

theorem mem_hexAlphabet_of_mem_md5Hex {message : List UInt8} {c : Char}
    (h : c ∈ (md5Hex message).toList) : c ∈ hexAlphabet := by
  rw [md5Hex, String.toList_ofList] at h
  obtain ⟨b, -, hc⟩ := List.mem_flatMap.mp h
  have hb := b.toNat_lt
  rcases List.mem_cons.mp hc with rfl | hc
  · exact hexDigit_mem_hexAlphabet _ (by omega)
  · rw [List.mem_singleton.mp hc]
    exact hexDigit_mem_hexAlphabet _ (by omega)

/-- Different texts have different bytes. -/
theorem bytesOf_injective {s t : String} (h : bytesOf s = bytesOf t) : s = t := by
  have hencoded : s.toList.utf8Encode = t.toList.utf8Encode := congrArg List.toByteArray h
  have hof : String.ofList s.toList = String.ofList t.toList := by
    rw [← String.toByteArray_inj, String.toByteArray_ofList, String.toByteArray_ofList, hencoded]
  simpa using hof

theorem collectionBytes_eq (texts : List String) :
    collectionBytes texts = bytesOf (runTogether texts) := by
  rw [collectionBytes, bytesOf, runTogether, String.toList_join, List.flatMap_assoc]
  rfl

/-- The bytes behind a digest tell the texts run together, and nothing else. -/
theorem collectionBytes_eq_iff {xs ys : List String} :
    collectionBytes xs = collectionBytes ys ↔ runTogether xs = runTogether ys := by
  rw [collectionBytes_eq, collectionBytes_eq]
  exact ⟨bytesOf_injective, congrArg bytesOf⟩

end Digest

/-- Texts of one length can be told apart when they are run together. -/
theorem perm_of_runTogether {k : Nat} (hk : 0 < k) {xs ys : List String}
    (hx : ∀ s ∈ xs, s.length = k) (hy : ∀ s ∈ ys, s.length = k)
    (h : runTogether xs = runTogether ys) : xs.Perm ys := by
  have hsorted {texts : List String} (ht : ∀ s ∈ texts, s.length = k) :
      ∀ s ∈ sortTexts texts, s.toList.length = k := fun s hs =>
    (String.length_toList (s := s)).trans (ht s ((sortTexts_perm texts).mem_iff.mp hs))
  have hjoined : (sortTexts xs).flatMap String.toList = (sortTexts ys).flatMap String.toList := by
    rw [← String.toList_join, ← String.toList_join]
    exact congrArg String.toList h
  have heq : sortTexts xs = sortTexts ys :=
    eq_of_flatMap hk (fun _ _ => String.toList_inj.mp) (hsorted hx) (hsorted hy) hjoined
  calc xs
    _ ~ sortTexts xs := (sortTexts_perm xs).symm
    _ = sortTexts ys := heq
    _ ~ ys := sortTexts_perm ys

end IngressControl
