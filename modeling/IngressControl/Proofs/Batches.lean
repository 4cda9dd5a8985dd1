import IngressControl.Batch
import Mathlib.Algebra.Order.Ring.Nat
import Mathlib.Data.List.Basic

/-! Batches within a limit per call. Nothing is lost or repeated, no batch is above the limit, and
the list can be cut as long as the limit is not so large that a quotient vanishes. -/

namespace IngressControl

theorem ceilDiv_le_iff {n k m : Nat} (hk : 0 < k) : ceilDiv n k ≤ m ↔ n ≤ m * k := by
  rw [ceilDiv, ← Nat.lt_succ_iff, Nat.div_lt_iff_lt_mul hk, Nat.succ_mul]
  omega

theorem ceilDiv_pos {n k : Nat} (hn : 0 < n) (hk : 0 < k) : 0 < ceilDiv n k := by
  by_contra h
  have hz : ceilDiv n k ≤ 0 := Nat.not_lt.mp h
  rw [ceilDiv_le_iff hk] at hz
  omega

/-- The quotient rounds up as it should wherever it does not vanish. -/
theorem ceilQuotient_eq {n k : Nat} (h : k < n * Nat.pow 2 vanishingPower) :
    ceilQuotient n k = ceilDiv n k := by
  rw [ceilQuotient, if_neg (Nat.not_le.mpr h)]

/-- A quotient by a number that is not above the dividend does not vanish. -/
theorem lt_mul_of_le {n k : Nat} (hn : 0 < n) (h : k ≤ n) : k < n * Nat.pow 2 vanishingPower := by
  have hpow : 1 < Nat.pow 2 vanishingPower := by
    have hv : vanishingPower ≠ 0 := Nat.succ_ne_zero _
    generalize vanishingPower = power at hv
    exact Nat.one_lt_two_pow hv
  calc k ≤ n * 1 := by omega
    _ < n * Nat.pow 2 vanishingPower := Nat.mul_lt_mul_of_pos_left hpow hn

theorem lt_pow_vanishingPower {n : Nat} (h : n ≤ vanishingPower) :
    n < Nat.pow 2 vanishingPower := by
  generalize vanishingPower = power at h
  exact Nat.lt_of_le_of_lt h Nat.lt_two_pow_self

/-- Chunks put together give the items again. -/
@[simp] theorem flatten_chunks {α : Type} (size : Nat) (items : List α) :
    (chunks size items).flatten = items := by
  fun_induction chunks size items with
  | case1 => rfl
  | case2 x xs ih => simp [ih, List.take_append_drop]

theorem length_le_of_mem_chunks {α : Type} {size : Nat} {items batch : List α} (hs : 0 < size)
    (h : batch ∈ chunks size items) : batch.length ≤ size := by
  fun_induction chunks size items with
  | case1 => cases h
  | case2 x xs ih =>
    rcases List.mem_cons.mp h with rfl | h
    · simp only [List.length_cons, List.length_take]
      omega
    · exact ih h

theorem ne_nil_of_mem_chunks {α : Type} {size : Nat} {items batch : List α}
    (h : batch ∈ chunks size items) : batch ≠ [] := by
  fun_induction chunks size items with
  | case1 => cases h
  | case2 x xs ih =>
    rcases List.mem_cons.mp h with rfl | h
    · exact List.cons_ne_nil _ _
    · exact ih h

def evenSize (n limit : Nat) : Nat := ceilDiv n (ceilDiv n limit)

theorem evenSize_pos {n limit : Nat} (hn : 0 < n) (hl : 0 < limit) : 0 < evenSize n limit :=
  ceilDiv_pos hn (ceilDiv_pos hn hl)

/-- Even groups are not larger than the limit. -/
theorem evenSize_le {n limit : Nat} (hn : 0 < n) (hl : 0 < limit) : evenSize n limit ≤ limit := by
  rw [evenSize, ceilDiv_le_iff (ceilDiv_pos hn hl), Nat.mul_comm, ← ceilDiv_le_iff hl]

@[simp] theorem groupsForLimit_nil {α : Type} {limit : Int} (hl : 0 < limit) :
    groupsForLimit ([] : List α) limit = .ok [] := by
  rw [groupsForLimit, if_neg (by omega)]
  rfl

/-- The cut succeeds as long as the quotient by the limit does not vanish. -/
theorem groupsForLimit_eq_ok {α : Type} {items : List α} {limit : Int} (hl : 0 < limit)
    (hne : items ≠ []) (hv : limit.toNat < items.length * Nat.pow 2 vanishingPower) :
    groupsForLimit items limit = .ok (chunks (evenSize items.length limit.toNat) items) := by
  have hn : 0 < items.length := List.length_pos_iff.mpr hne
  have hk : 0 < limit.toNat := by omega
  have he : ¬ items.isEmpty = true := by simpa using hne
  have hcpos := ceilDiv_pos hn hk
  have hcle : ceilDiv items.length limit.toNat ≤ items.length := by
    rw [ceilDiv_le_iff hk]
    exact Nat.le_mul_of_pos_right _ hk
  have hsize : ceilQuotient items.length (ceilDiv items.length limit.toNat) =
      evenSize items.length limit.toNat := ceilQuotient_eq (lt_mul_of_le hn hcle)
  -- neither of the two quotients vanishes, the second since there are no more groups than items
  rw [groupsForLimit, if_neg (by omega), if_neg he, splitIntoGroups, ceilQuotient_eq hv,
    if_neg (by omega), if_neg he, Int.toNat_natCast, hsize]
  have hspos := evenSize_pos hn hk
  split
  · omega
  · rfl

/-- A limit so large that the quotient vanishes makes every cut fail. -/
theorem groupsForLimit_eq_error {α : Type} {items : List α} {limit : Int} (hne : items ≠ [])
    (hl : 0 < limit) (hv : items.length * Nat.pow 2 vanishingPower ≤ limit.toNat) :
    groupsForLimit items limit = .error (.groupCount 0) := by
  have he : ¬ items.isEmpty = true := by simpa using hne
  rw [groupsForLimit, if_neg (by omega), if_neg he, ceilQuotient, if_pos hv]
  rfl

/-- A list that is cut for a limit is cut into chunks of a size within the limit. -/
theorem groupsForLimit_cases {α : Type} {items : List α} {limit : Int} {batches : List (List α)}
    (h : groupsForLimit items limit = .ok batches) :
    items = [] ∧ batches = [] ∨
      ∃ size : Nat, 0 < size ∧ (size : Int) ≤ limit ∧ batches = chunks size items := by
  by_cases hl : 0 < limit
  · by_cases hne : items = []
    · subst hne
      rw [groupsForLimit_nil hl] at h
      exact Or.inl ⟨rfl, (Except.ok.inj h).symm⟩
    · have hn : 0 < items.length := List.length_pos_iff.mpr hne
      by_cases hv : limit.toNat < items.length * Nat.pow 2 vanishingPower
      · rw [groupsForLimit_eq_ok hl hne hv] at h
        have hle := evenSize_le hn (by omega : 0 < limit.toNat)
        exact Or.inr ⟨_, evenSize_pos hn (by omega), by omega, (Except.ok.inj h).symm⟩
      · rw [groupsForLimit_eq_error hne hl (Nat.not_lt.mp hv)] at h
        cases h
  · rw [groupsForLimit, if_pos (by omega)] at h
    cases h

/-- Every list can be cut for a limit below the power of two at which quotients vanish. -/
theorem exists_groupsForLimit {α : Type} (items : List α) {limit : Int} (hl : 0 < limit)
    (hv : limit.toNat < Nat.pow 2 vanishingPower) :
    ∃ batches, groupsForLimit items limit = .ok batches := by
  by_cases hne : items = []
  · exact ⟨[], hne ▸ groupsForLimit_nil hl⟩
  · have hn : 0 < items.length := List.length_pos_iff.mpr hne
    refine ⟨_, groupsForLimit_eq_ok hl hne ?_⟩
    calc limit.toNat < Nat.pow 2 vanishingPower := hv
      _ ≤ items.length * Nat.pow 2 vanishingPower := Nat.le_mul_of_pos_left _ hn

/-- The groups put together give the items again. -/
theorem flatten_groupsForLimit {α : Type} {items : List α} {limit : Int}
    {batches : List (List α)} (h : groupsForLimit items limit = .ok batches) :
    batches.flatten = items := by
  rcases groupsForLimit_cases h with ⟨rfl, rfl⟩ | ⟨size, -, -, rfl⟩
  · rfl
  · exact flatten_chunks size items

/-- No call is made for nothing. -/
theorem ne_nil_of_mem_groupsForLimit {α : Type} {items batch : List α} {limit : Int}
    {batches : List (List α)} (h : groupsForLimit items limit = .ok batches)
    (hb : batch ∈ batches) : batch ≠ [] := by
  rcases groupsForLimit_cases h with ⟨rfl, rfl⟩ | ⟨size, -, -, rfl⟩
  · cases hb
  · exact ne_nil_of_mem_chunks hb

/-- No group is larger than the limit. -/
theorem length_le_of_mem_groupsForLimit {α : Type} {items batch : List α} {limit : Int}
    {batches : List (List α)} (h : groupsForLimit items limit = .ok batches)
    (hb : batch ∈ batches) : (batch.length : Int) ≤ limit := by
  rcases groupsForLimit_cases h with ⟨rfl, rfl⟩ | ⟨size, hs, hl, rfl⟩
  · cases hb
  · have hlen := length_le_of_mem_chunks hs hb
    omega

theorem ceilDiv_zero {k : Nat} (hk : 0 < k) : ceilDiv 0 k = 0 :=
  Nat.div_eq_of_lt (by omega)

/-- Items fall into as many chunks as their number divided by the size, rounded up. -/
theorem length_chunks {α : Type} {size : Nat} (hs : 0 < size) (items : List α) :
    (chunks size items).length = ceilDiv items.length size := by
  fun_induction chunks size items with
  | case1 => exact (ceilDiv_zero hs).symm
  | case2 x xs ih =>
    rw [List.length_cons, ih, List.length_drop, List.length_cons, ceilDiv, ceilDiv,
      ← Nat.add_div_right _ hs]
    by_cases hlen : size - 1 ≤ xs.length
    · congr 1
      omega
    · rw [Nat.div_eq_of_lt_le (k := 1), Nat.div_eq_of_lt_le (k := 1)] <;> omega

/-- Making the batches even does not make them more than the limit asks for. -/
theorem ceilDiv_evenSize {n limit : Nat} (hl : 0 < limit) :
    ceilDiv n (evenSize n limit) = ceilDiv n limit := by
  rcases Nat.eq_zero_or_pos n with rfl | hn
  · have hz : ceilDiv 0 limit = 0 := ceilDiv_zero hl
    rw [evenSize, hz]
    rfl
  · have hcount := ceilDiv_pos hn hl
    have hsize := evenSize_pos hn hl
    apply Nat.le_antisymm
    · rw [ceilDiv_le_iff hsize, Nat.mul_comm, ← ceilDiv_le_iff hcount, evenSize]
    · rw [ceilDiv_le_iff hl]
      calc n ≤ ceilDiv n (evenSize n limit) * evenSize n limit := (ceilDiv_le_iff hsize).mp le_rfl
        _ ≤ ceilDiv n (evenSize n limit) * limit := Nat.mul_le_mul_left _ (evenSize_le hn hl)

structure Cut {α : Type} (limit : Int) (items : List α) (batches : List (List α)) : Prop where
  covers : batches.flatten = items
  nonempty : ∀ batch ∈ batches, batch ≠ []
  within : ∀ batch ∈ batches, (batch.length : Int) ≤ limit
  fewest : batches.length = ceilDiv items.length limit.toNat

def cut {α : Type} (limit : Int) (items : List α) : List (List α) :=
  chunks (evenSize items.length limit.toNat) items

/-- The cut into even chunks has all the properties of a cut. -/
theorem cut_cut {α : Type} {limit : Int} (hl : 0 < limit) (items : List α) :
    Cut limit items (cut limit items) := by
  have hlimit : 0 < limit.toNat := by omega
  rcases Nat.eq_zero_or_pos items.length with hn | hn
  · obtain rfl := List.length_eq_zero_iff.mp hn
    have hnil : cut limit ([] : List α) = [] := by simp [cut, chunks]
    rw [hnil]
    have hnone (batch : List α) : batch ∉ ([] : List (List α)) := List.not_mem_nil
    exact ⟨rfl, fun b hb => absurd hb (hnone b), fun b hb => absurd hb (hnone b),
      (ceilDiv_zero hlimit).symm⟩
  · have hsize := evenSize_pos hn hlimit
    refine ⟨flatten_chunks _ _, fun _ => ne_nil_of_mem_chunks, fun batch hb => ?_, ?_⟩
    · have hlength := length_le_of_mem_chunks hsize hb
      have hle := evenSize_le hn hlimit
      omega
    · rw [cut, length_chunks hsize, ceilDiv_evenSize hlimit]

/-- A list can be cut for a limit as long as the quotient by the limit does not vanish. -/
def Cuttable {α : Type} (limit : Int) (items : List α) : Prop :=
  items = [] ∨ limit.toNat < items.length * Nat.pow 2 vanishingPower

theorem groupsForLimit_of_cuttable {α : Type} {limit : Int} {items : List α} (hl : 0 < limit)
    (hc : Cuttable limit items) : groupsForLimit items limit = .ok (cut limit items) := by
  by_cases hne : items = []
  · subst hne
    rw [groupsForLimit_nil hl]
    simp [cut, chunks]
  · exact groupsForLimit_eq_ok hl hne (hc.resolve_left hne)

/-- Where the quotient vanishes, the groups fail for want of a positive count. -/
theorem groupsForLimit_of_not_cuttable {α : Type} {limit : Int} {items : List α} (hl : 0 < limit)
    (hc : ¬ Cuttable limit items) : groupsForLimit items limit = .error (.groupCount 0) := by
  rw [Cuttable, not_or, Nat.not_lt] at hc
  exact groupsForLimit_eq_error hc.1 hl hc.2

end IngressControl
