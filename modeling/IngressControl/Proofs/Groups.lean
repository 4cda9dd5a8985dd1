import IngressControl.Proofs.Batches
import Mathlib.Algebra.Order.BigOperators.Group.List
import Mathlib.Algebra.Group.Action.Defs
import Mathlib.Data.Rat.Floor

/-! Cutting lists into groups. For a number of groups all but the last one have the quotient,
rounded up, as their size; for a limit there are as many groups as the quotient by the limit,
rounded up, and no division of the items that respects the limit has fewer. -/

namespace IngressControl

/-- Rounding up in whole numbers is rounding up the quotient. -/
theorem ceilDiv_eq_ceil {n k : Nat} (hk : 0 < k) : ceilDiv n k = ⌈(n : ℚ) / k⌉₊ := by
  have hpos : (0 : ℚ) < k := Nat.cast_pos.mpr hk
  have hle (m : Nat) : ceilDiv n k ≤ m ↔ ⌈(n : ℚ) / k⌉₊ ≤ m := by
    rw [ceilDiv_le_iff hk, Nat.ceil_le, div_le_iff₀ hpos]
    norm_cast
  apply Nat.le_antisymm
  · exact (hle _).mpr le_rfl
  · exact (hle _).mp le_rfl

structure Grouped {α : Type} (size : Nat) (items : List α) (groups : List (List α)) : Prop where
  covers : groups.flatten = items
  nonempty : ∀ group ∈ groups, group ≠ []
  whole : ∀ group ∈ groups.dropLast, group.length = size
  last : ∀ group ∈ groups.getLast?, group.length ≤ size

section Chunks

variable {α : Type} {size : Nat}

/-- What a chunk is followed by begins where a whole size has been taken off. -/
theorem length_eq_of_mem_dropLast_chunks (hs : 0 < size) (items : List α) :
    ∀ group ∈ (chunks size items).dropLast, group.length = size := by
  fun_induction chunks size items with
  | case1 => exact fun group hg => absurd hg List.not_mem_nil
  | case2 x xs ih =>
    intro group hg
    cases hrest : chunks size (xs.drop (size - 1)) with
    | nil =>
      rw [hrest] at hg
      exact absurd hg List.not_mem_nil
    | cons next later =>
      rw [hrest, List.dropLast_cons_cons] at hg
      rcases List.mem_cons.mp hg with rfl | hg
      · -- there is a next chunk, so the items did not end within this one
        have hlong : size - 1 < xs.length := by
          by_contra hshort
          have hnil : xs.drop (size - 1) = [] := List.drop_eq_nil_of_le (Nat.not_lt.mp hshort)
          rw [hnil, chunks] at hrest
          cases hrest
        rw [List.length_cons, List.length_take]
        omega
      · apply ih
        rw [hrest]
        exact hg

theorem grouped_chunks (hs : 0 < size) (items : List α) :
    Grouped size items (chunks size items) where
  covers := flatten_chunks size items
  nonempty _ := ne_nil_of_mem_chunks
  whole := length_eq_of_mem_dropLast_chunks hs items
  last _ hg := length_le_of_mem_chunks hs (List.mem_of_mem_getLast? hg)

end Chunks

section Split

variable {α : Type}

/-- A list can be cut into a number of groups as long as the quotient by it does not vanish. -/
theorem splitIntoGroups_eq_ok {items : List α} {count : Int} (hc : 0 < count)
    (hv : count.toNat < Nat.pow 2 vanishingPower) :
    splitIntoGroups items count = .ok (chunks (ceilDiv items.length count.toNat) items) := by
  rw [splitIntoGroups, if_neg (by omega)]
  cases hitems : items with
  | nil =>
    rw [chunks]
    rfl
  | cons x xs =>
    rw [← hitems]
    have hn : 0 < items.length := by
      rw [hitems]
      exact Nat.succ_pos _
    have he : ¬ items.isEmpty = true := by simp [hitems]
    have hquotient : count.toNat < items.length * Nat.pow 2 vanishingPower :=
      calc count.toNat < Nat.pow 2 vanishingPower := hv
        _ ≤ items.length * Nat.pow 2 vanishingPower := Nat.le_mul_of_pos_left _ hn
    have hsize : 0 < ceilDiv items.length count.toNat := ceilDiv_pos hn (by omega)
    rw [if_neg he, ceilQuotient_eq hquotient]
    split
    · omega
    · rfl

/-- Groups of a quotient, rounded up, are no more than the number that is divided by. -/
theorem length_chunks_le (items : List α) {count : Nat} (hc : 0 < count) :
    (chunks (ceilDiv items.length count) items).length ≤ count := by
  rcases Nat.eq_zero_or_pos items.length with hn | hn
  · obtain rfl := List.length_eq_zero_iff.mp hn
    rw [chunks]
    exact Nat.zero_le _
  · have hsize : 0 < ceilDiv items.length count := ceilDiv_pos hn hc
    rw [length_chunks hsize, ceilDiv_le_iff hsize, Nat.mul_comm, ← ceilDiv_le_iff hc]

/-- No division of items into groups within a limit has fewer groups than the quotient asks for. -/
theorem ceilDiv_le_length {limit : Nat} (hl : 0 < limit) {groups : List (List α)}
    (hg : ∀ group ∈ groups, group.length ≤ limit) :
    ceilDiv groups.flatten.length limit ≤ groups.length := by
  rw [ceilDiv_le_iff hl, List.length_flatten]
  have hsum : (groups.map List.length).sum ≤ (groups.map List.length).length • limit := by
    apply List.sum_le_card_nsmul
    intro n hn
    obtain ⟨group, hmem, rfl⟩ := List.mem_map.mp hn
    exact hg group hmem
  rwa [List.length_map, smul_eq_mul] at hsum

end Split

structure FewestWithin {α : Type} (limit : Int) (items : List α) (groups : List (List α)) :
    Prop where
  covers : groups.flatten = items
  sizes : ∀ group ∈ groups, 1 ≤ group.length ∧ (group.length : Int) ≤ limit
  count : groups.length = ⌈(items.length : ℚ) / limit⌉₊
  /-- The items may be in any order in the other groups. -/
  fewest : ∀ others : List (List α), others.flatten.Perm items →
    (∀ group ∈ others, (group.length : Int) ≤ limit) → groups.length ≤ others.length

theorem fewestWithin_cut {α : Type} {limit : Int} (hl : 0 < limit) (items : List α) :
    FewestWithin limit items (cut limit items) := by
  have hlimit : 0 < limit.toNat := by omega
  have hcut := cut_cut hl items
  refine ⟨hcut.covers, fun group hg => ⟨?_, hcut.within group hg⟩, ?_, fun others hp hg => ?_⟩
  · exact List.length_pos_iff.mpr (hcut.nonempty group hg)
  · have hcast : ((limit.toNat : Nat) : ℚ) = limit := by
      exact_mod_cast Int.toNat_of_nonneg (Int.le_of_lt hl)
    rw [hcut.fewest, ceilDiv_eq_ceil hlimit, hcast]
  · have hsizes : ∀ group ∈ others, group.length ≤ limit.toNat := by
      intro group hmem
      have hle := hg group hmem
      omega
    calc (cut limit items).length = ceilDiv items.length limit.toNat := hcut.fewest
      _ = ceilDiv others.flatten.length limit.toNat := by rw [hp.length_eq]
      _ ≤ others.length := ceilDiv_le_length hlimit hsizes

/-- How a list can be cut. Numbers from the power of two on at which quotients vanish are left
out. -/
structure Cuts {α : Type} (items : List α) : Prop where
  split : ∀ count : Int, 0 < count → count.toNat < Nat.pow 2 vanishingPower →
    ∃ groups, splitIntoGroups items count = .ok groups ∧
      Grouped ⌈(items.length : ℚ) / count⌉₊ items groups ∧ (groups.length : Int) ≤ count
  limited : ∀ limit : Int, 0 < limit → limit.toNat < Nat.pow 2 vanishingPower →
    ∃ groups, groupsForLimit items limit = .ok groups ∧ FewestWithin limit items groups
  /-- There is no cut into no groups or for no items per call, not even of an empty list. -/
  splitRefused : ∀ count : Int, count ≤ 0 →
    splitIntoGroups items count = .error (.groupCount count) ∧
      (Fault.groupCount count).isValue = true
  limitRefused : ∀ limit : Int, limit ≤ 0 →
    groupsForLimit items limit = .error (.callLimit limit) ∧ (Fault.callLimit limit).isValue = true

/-- Every list is cut without loss, into groups of the quotient, rounded up, and within a limit into
as few groups as there can be. -/
theorem cuts_exactly {α : Type} (items : List α) : Cuts items := by
  refine ⟨fun count hc hv => ?_, fun limit hl hv => ?_, fun count hc => ?_, fun limit hl => ?_⟩
  · have hpos : 0 < count.toNat := by omega
    have hcast : ((count.toNat : Nat) : ℚ) = count := by
      exact_mod_cast Int.toNat_of_nonneg (Int.le_of_lt hc)
    refine ⟨_, splitIntoGroups_eq_ok hc hv, ?_, ?_⟩
    · rw [← hcast, ← ceilDiv_eq_ceil hpos]
      rcases Nat.eq_zero_or_pos items.length with hn | hn
      · obtain rfl := List.length_eq_zero_iff.mp hn
        rw [chunks]
        exact ⟨rfl, by simp, by simp, by simp⟩
      · exact grouped_chunks (ceilDiv_pos hn hpos) items
    · have hle := length_chunks_le items hpos
      omega
  · have hcuttable : Cuttable limit items := by
      by_cases hne : items = []
      · exact Or.inl hne
      · refine Or.inr (Nat.lt_of_lt_of_le hv ?_)
        exact Nat.le_mul_of_pos_left _ (List.length_pos_iff.mpr hne)
    exact ⟨_, groupsForLimit_of_cuttable hl hcuttable, fewestWithin_cut hl items⟩
  · exact ⟨if_pos hc, rfl⟩
  · exact ⟨if_pos hl, rfl⟩

/-- Fewer groups than asked for, since all but the last one have the same size. -/
example : splitIntoGroups [1, 2, 3, 4, 5] 4 = .ok [[1, 2], [3, 4], [5]] := by decide +kernel

end IngressControl
