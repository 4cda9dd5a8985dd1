import IngressControl.Proofs.Sorting
import Mathlib.Algebra.Order.Group.Int

/-! Sorting documents that are compared by a rank, such as numbers. Each part of the sorting keeps
the runs in order, so what comes out is in the order of the ranks. -/

namespace IngressControl.Document
open scoped List

def Ranked (rank : Document → Int) (ds : List Document) : Prop :=
  ∀ x ∈ ds, ∀ y ∈ ds, less x y = .ok (decide (rank x < rank y))

def Ordered (rank : Document → Int) (ds : List Document) : Prop :=
  ds.Pairwise fun x y => rank x ≤ rank y

section Ranks

variable {rank : Document → Int} {ds run rest out : List Document} {x : Document}

theorem Ranked.mono {es : List Document} (h : ∀ d ∈ es, d ∈ ds) (hr : Ranked rank ds) :
    Ranked rank es := fun x hx y hy => hr x (h x hx) y (h y hy)

theorem Ranked.comparable (hr : Ranked rank ds) : Comparable ds :=
  fun x hx y hy => ⟨_, hr x hx y hy⟩

/-- A run goes strictly downwards, or it does not go downwards anywhere. -/
theorem pairwise_takeRun {down : Bool} {last : Document} (hr : Ranked rank (last :: ds))
    (h : takeRun down last ds = .ok (run, rest)) :
    (last :: run).Pairwise fun x y => decide (rank y < rank x) = down := by
  induction ds generalizing last run rest with
  | nil =>
    obtain ⟨rfl, rfl⟩ := Prod.mk.inj (Except.ok.inj h)
    exact List.pairwise_singleton _ _
  | cons x ds ih =>
    have hless : less x last = .ok (decide (rank x < rank last)) := hr x (by simp) last (by simp)
    simp only [takeRun, hless] at h
    split at h
    · rename_i hdown
      have hdown : decide (rank x < rank last) = down := by simpa using hdown
      obtain ⟨⟨run', rest'⟩, hrun, he⟩ := map_eq_ok h
      obtain ⟨rfl, rfl⟩ := Prod.mk.inj he
      have htail := ih (hr.mono fun d hd => List.mem_cons_of_mem _ hd) hrun
      refine List.pairwise_cons.mpr ⟨fun y hy => ?_, htail⟩
      rcases List.mem_cons.mp hy with rfl | hy
      · exact hdown
      · -- the last one, x and y go in the same direction
        have hxy := (List.pairwise_cons.mp htail).1 y hy
        cases down <;> simp only [decide_eq_true_eq, decide_eq_false_iff_not] at * <;> omega
    · obtain ⟨rfl, rfl⟩ := Prod.mk.inj (Except.ok.inj h)
      exact List.pairwise_singleton _ _

theorem ordered_headRun (hr : Ranked rank ds) (h : headRun ds = .ok (run, rest)) :
    Ordered rank run := by
  match ds, hr, h with
  | [], _, h =>
    obtain ⟨rfl, rfl⟩ := Prod.mk.inj (Except.ok.inj h)
    exact List.Pairwise.nil
  | [x], _, h =>
    obtain ⟨rfl, rfl⟩ := Prod.mk.inj (Except.ok.inj h)
    exact List.pairwise_singleton _ _
  | x :: y :: ds, hr, h =>
    have hless : less y x = .ok (decide (rank y < rank x)) := hr y (by simp) x (by simp)
    simp only [headRun, hless] at h
    obtain ⟨⟨run', rest'⟩, hrun, he⟩ := map_eq_ok h
    obtain ⟨rfl, rfl⟩ := Prod.mk.inj he
    have hpair : takeRun (decide (rank y < rank x)) x (y :: ds) = .ok (y :: run', rest') := by
      simp only [takeRun, hless, BEq.rfl, if_true, hrun]
      rfl
    have hall := pairwise_takeRun hr hpair
    split
    · rename_i hdown
      rw [hdown] at hall
      refine List.pairwise_reverse.mpr (hall.imp fun hab => ?_)
      simp only [decide_eq_true_eq] at hab
      omega
    · rename_i hup
      have hup : decide (rank y < rank x) = false := by simpa using hup
      rw [hup] at hall
      refine hall.imp fun hab => ?_
      simp only [decide_eq_false_iff_not] at hab
      omega

/-- Documents in order before a position have at most the rank of the one at it. -/
theorem Ordered.le_of_le {sorted : Array Document} (ho : Ordered rank sorted.toList) {i j : Nat}
    (hij : i ≤ j) (hj : j < sorted.size) : rank sorted[i] ≤ rank sorted[j] := by
  rcases Nat.lt_or_eq_of_le hij with hlt | rfl
  · have hpair := List.pairwise_iff_getElem.mp ho i j (by simpa using hlt.trans hj)
      (by simpa using hj) hlt
    simpa using hpair
  · exact le_rfl

/-- The position of a document splits the sorted ones: those before it have at most its rank, those
from it on have more. -/
theorem splits_position {sorted : Array Document} {low high i : Nat} (hh : high ≤ sorted.size)
    (ho : Ordered rank sorted.toList) (hr : Ranked rank (x :: sorted.toList))
    (h : position sorted x low high = .ok i)
    (hlow : ∀ j (hj : j < sorted.size), j < low → rank sorted[j] ≤ rank x)
    (hhigh : ∀ j (hj : j < sorted.size), high ≤ j → rank x < rank sorted[j]) :
    (∀ j (hj : j < sorted.size), j < i → rank sorted[j] ≤ rank x) ∧
      ∀ j (hj : j < sorted.size), i ≤ j → rank x < rank sorted[j] := by
  have hless (m : Nat) (hm : m < sorted.size) :
      less x (sorted[m]?.getD null) = .ok (decide (rank x < rank sorted[m])) := by
    rw [Array.getElem?_eq_getElem hm, Option.getD_some]
    exact hr x (by simp) sorted[m] (by simp)
  fun_induction position sorted x low high with
  | case1 => cases h
  | case2 low high hlt middle hdown ih =>
    have hm : middle < sorted.size := by omega
    rw [hless middle hm] at hdown
    have hbelow : rank x < rank sorted[middle] := by simpa using hdown
    refine ih (by omega) h hlow fun j hj hle => ?_
    exact hbelow.trans_le (ho.le_of_le hle hj)
  | case3 low high hlt middle hup ih =>
    have hm : middle < sorted.size := by omega
    rw [hless middle hm] at hup
    have habove : rank sorted[middle] ≤ rank x := by simpa using hup
    refine ih hh h (fun j hj hle => ?_) hhigh
    exact (ho.le_of_le (Nat.lt_succ_iff.mp hle) hm).trans habove
  | case4 low high hge =>
    obtain rfl := Except.ok.inj h
    exact ⟨hlow, fun j hj hle => hhigh j hj (by omega)⟩

theorem ordered_insertIdx {sorted : List Document} {i : Nat} (hi : i ≤ sorted.length)
    (ho : Ordered rank sorted)
    (hbefore : ∀ j (hj : j < sorted.length), j < i → rank sorted[j] ≤ rank x)
    (hafter : ∀ j (hj : j < sorted.length), i ≤ j → rank x ≤ rank sorted[j]) :
    Ordered rank (sorted.insertIdx i x) := by
  induction sorted generalizing i with
  | nil =>
    obtain rfl : i = 0 := Nat.le_zero.mp hi
    exact List.pairwise_singleton _ _
  | cons d sorted ih =>
    obtain ⟨hd, ho⟩ := List.pairwise_cons.mp ho
    cases i with
    | zero =>
      refine List.pairwise_cons.mpr ⟨fun e he => ?_, List.pairwise_cons.mpr ⟨hd, ho⟩⟩
      have hx : rank x ≤ rank d := hafter 0 (Nat.zero_lt_succ _) le_rfl
      rcases List.mem_cons.mp he with rfl | he
      · exact hx
      · exact hx.trans (hd e he)
    | succ i =>
      rw [List.insertIdx_succ_cons]
      have hi : i ≤ sorted.length := Nat.le_of_succ_le_succ hi
      refine List.pairwise_cons.mpr ⟨fun e he => ?_, ih hi ho (fun j hj hlt => ?_)
        (fun j hj hle => ?_)⟩
      · rcases List.mem_cons.mp ((List.perm_insertIdx x sorted hi).mem_iff.mp he) with rfl | he
        · exact hbefore 0 (Nat.zero_lt_succ _) (Nat.zero_lt_succ _)
        · exact hd e he
      · exact hbefore (j + 1) (Nat.succ_lt_succ hj) (Nat.succ_lt_succ hlt)
      · exact hafter (j + 1) (Nat.succ_lt_succ hj) (Nat.succ_le_succ hle)

/-- Insertion keeps an ordered run ordered. -/
theorem ordered_insertAll {sorted filled : Array Document} (ho : Ordered rank sorted.toList)
    (hr : Ranked rank (sorted.toList ++ ds)) (h : insertAll sorted ds = .ok filled) :
    Ordered rank filled.toList := by
  induction ds generalizing sorted with
  | nil =>
    obtain rfl := Except.ok.inj h
    exact ho
  | cons x ds ih =>
    simp only [insertAll] at h
    split at h
    · cases h
    · rename_i i hi
      have hperm := insertIdx_perm hi
      have hx : Ranked rank (x :: sorted.toList) := hr.mono (by simp; tauto)
      have hsize : i ≤ sorted.toList.length := position_le hi (Nat.zero_le _)
      obtain ⟨hbefore, hafter⟩ := splits_position le_rfl ho hx hi
        (fun j hj hlt => absurd hlt (Nat.not_lt_zero j)) (fun j hj hle => by omega)
      refine ih ?_ (hr.mono fun d hd => ?_) h
      · have hinsert : (sorted.insertIdxIfInBounds i x).toList = sorted.toList.insertIdx i x := by
          cases sorted
          simp
        rw [hinsert]
        exact ordered_insertIdx hsize ho (fun j hj => by simpa using hbefore j (by simpa using hj))
          fun j hj hle => by simpa using (hafter j (by simpa using hj) hle).le
      · rcases List.mem_append.mp hd with hd | hd
        · rcases List.mem_cons.mp (hperm.mem_iff.mp hd) with rfl | hd
          · simp
          · exact List.mem_append_left _ hd
        · exact List.mem_append_right _ (List.mem_cons_of_mem _ hd)

/-- Merging ordered lists gives an ordered list. -/
theorem ordered_merge {xs ys : List Document} (hx : Ordered rank xs) (hy : Ordered rank ys)
    (hr : Ranked rank (xs ++ ys)) (h : merge xs ys = .ok out) : Ordered rank out := by
  fun_induction merge xs ys generalizing out with
  | case1 ys =>
    obtain rfl := Except.ok.inj h
    exact hy
  | case2 xs =>
    obtain rfl := Except.ok.inj h
    exact hx
  | case3 => cases h
  | case4 x xs y ys hless ih =>
    obtain ⟨out', ho, rfl⟩ := map_eq_ok h
    have hbelow : rank y < rank x := by
      rw [hr y (by simp) x (by simp)] at hless
      simpa using hless
    obtain ⟨hfirst, hrest⟩ := List.pairwise_cons.mp hy
    -- the head of the second run is below all of the first one
    refine List.pairwise_cons.mpr ⟨fun d hd => ?_, ih hx hrest (hr.mono (by simp; tauto)) ho⟩
    rcases List.mem_append.mp ((merge_perm ho).mem_iff.mp hd) with hd | hd
    · rcases List.mem_cons.mp hd with rfl | hd
      · exact hbelow.le
      · exact hbelow.le.trans ((List.pairwise_cons.mp hx).1 d hd)
    · exact hfirst d hd
  | case5 x xs y ys hless ih =>
    obtain ⟨out', ho, rfl⟩ := map_eq_ok h
    have hbelow : rank x ≤ rank y := by
      rw [hr y (by simp) x (by simp)] at hless
      simpa using hless
    obtain ⟨hfirst, hrest⟩ := List.pairwise_cons.mp hx
    refine List.pairwise_cons.mpr ⟨fun d hd => ?_, ih hrest hy (hr.mono (by simp; tauto)) ho⟩
    rcases List.mem_append.mp ((merge_perm ho).mem_iff.mp hd) with hd | hd
    · exact hfirst d hd
    · rcases List.mem_cons.mp hd with rfl | hd
      · exact hbelow
      · exact hbelow.trans ((List.pairwise_cons.mp hy).1 d hd)

/-- Sorting by runs orders documents that have ranks. -/
theorem ordered_sortRuns {least fuel : Nat} {done : List Document} (hf : ds.length ≤ fuel)
    (hd : Ordered rank done) (hr : Ranked rank (done ++ ds))
    (h : sortRuns least fuel done ds = .ok out) : Ordered rank out := by
  induction fuel generalizing done ds with
  | zero =>
    obtain rfl := Except.ok.inj h
    exact hd
  | succ fuel ih =>
    cases ds with
    | nil =>
      obtain rfl := Except.ok.inj h
      exact hd
    | cons d ds =>
      simp only [sortRuns] at h
      obtain ⟨⟨run, rest⟩, hrun, h⟩ := bind_eq_ok h
      obtain ⟨filled, hi, h⟩ := bind_eq_ok h
      obtain ⟨merged, hm, h⟩ := bind_eq_ok h
      dsimp only at hi h
      have hlen : (rest.drop (least - run.length)).length < (d :: ds).length :=
        length_drop_headRun_lt hrun (List.cons_ne_nil d ds)
      -- each part of the work is on some of the documents, so they are all compared by the rank
      have hhead : Ordered rank run.toArray.toList :=
        ordered_headRun (hr.mono fun e he => List.mem_append_right _ he) hrun
      have hfilled : Ordered rank filled.toList := ordered_insertAll hhead
        (hr.mono fun e he => List.mem_append_right _ (mem_of_headRun hrun he)) hi
      have hmerged : Ordered rank merged :=
        ordered_merge hd hfilled (hr.mono fun e he => mem_of_filled hrun hi he) hm
      exact ih (by simp only [List.length_cons] at hlen hf; omega) hmerged
        (hr.mono fun e he => mem_of_merged hrun hi hm he) h

/-- Documents that are compared by a rank are sorted by it. -/
theorem ordered_sort (hr : Ranked rank ds) (ht : allTexts? ds = none)
    (h : sort ds = .ok out) : Ordered rank out := by
  rw [sort, ht] at h
  exact ordered_sortRuns le_rfl List.Pairwise.nil (by simpa using hr) h

end Ranks

end IngressControl.Document
