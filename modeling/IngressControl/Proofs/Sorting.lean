import IngressControl.Document.Order
import IngressControl.Proofs.Outcome
import Mathlib.Data.List.Perm.Basic

/-! Sorting documents by runs. What comes out is the list that went in, in another order, and it
comes out whenever any two documents of the list can be compared; a list of numbers that is in order
already comes out as it is. -/

namespace IngressControl.Document
open scoped List

def Comparable (ds : List Document) : Prop := ∀ x ∈ ds, ∀ y ∈ ds, ∃ b, less x y = .ok b

theorem Comparable.mono {ds es : List Document} (h : ∀ d ∈ es, d ∈ ds) (hc : Comparable ds) :
    Comparable es := fun x hx y hy => hc x (h x hx) y (h y hy)

/-- A run and the rest after it are the documents that were given. -/
theorem takeRun_append {down : Bool} {last : Document} {ds run rest : List Document}
    (h : takeRun down last ds = .ok (run, rest)) : run ++ rest = ds := by
  induction ds generalizing last run rest with
  | nil =>
    obtain ⟨rfl, rfl⟩ := Prod.mk.inj (Except.ok.inj h)
    rfl
  | cons x ds ih =>
    simp only [takeRun] at h
    split at h
    · cases h
    · split at h
      · obtain ⟨⟨run', rest'⟩, hr, he⟩ := map_eq_ok h
        obtain ⟨rfl, rfl⟩ := Prod.mk.inj he
        rw [List.cons_append, ih hr]
      · obtain ⟨rfl, rfl⟩ := Prod.mk.inj (Except.ok.inj h)
        rfl

/-- A run is found wherever the documents can be compared. -/
theorem exists_takeRun (down : Bool) {last : Document} {ds : List Document}
    (hc : Comparable (last :: ds)) : ∃ result, takeRun down last ds = .ok result := by
  induction ds generalizing last with
  | nil => exact ⟨_, rfl⟩
  | cons x ds ih =>
    obtain ⟨b, hb⟩ := hc x (by simp) last (by simp)
    obtain ⟨result, hr⟩ := ih (hc.mono fun d hd => List.mem_cons_of_mem _ hd)
    simp only [takeRun, hb, hr]
    split
    · exact ⟨_, rfl⟩
    · exact ⟨_, rfl⟩

/-- The first run takes at least one document, and loses none. -/
theorem headRun_perm {ds run rest : List Document} (h : headRun ds = .ok (run, rest)) :
    (run ++ rest).Perm ds ∧ (ds ≠ [] → run ≠ []) := by
  match ds, h with
  | [], h =>
    obtain ⟨rfl, rfl⟩ := Prod.mk.inj (Except.ok.inj h)
    exact ⟨List.Perm.refl _, fun hn => absurd rfl hn⟩
  | [x], h =>
    obtain ⟨rfl, rfl⟩ := Prod.mk.inj (Except.ok.inj h)
    exact ⟨List.Perm.refl _, fun _ => List.cons_ne_nil _ _⟩
  | x :: y :: ds, h =>
    simp only [headRun] at h
    split at h
    · cases h
    · obtain ⟨⟨run', rest'⟩, hr, he⟩ := map_eq_ok h
      obtain ⟨rfl, rfl⟩ := Prod.mk.inj he
      have hds := takeRun_append hr
      refine ⟨?_, fun _ => ?_⟩
      · rw [← hds]
        split
        · exact (List.reverse_perm _).append_right _
        · exact List.Perm.refl _
      · split
        · simp
        · exact List.cons_ne_nil _ _

theorem exists_headRun {ds : List Document} (hc : Comparable ds) :
    ∃ result, headRun ds = .ok result := by
  match ds, hc with
  | [], _ => exact ⟨_, rfl⟩
  | [x], _ => exact ⟨_, rfl⟩
  | x :: y :: ds, hc =>
    obtain ⟨b, hb⟩ := hc y (by simp) x (by simp)
    obtain ⟨result, hr⟩ := exists_takeRun b (hc.mono fun d hd => List.mem_cons_of_mem _ hd)
    simp only [headRun, hb, hr]
    exact ⟨_, rfl⟩

/-- The position that the search gives is not beyond its upper end. -/
theorem position_le {sorted : Array Document} {x : Document} {low high i : Nat}
    (h : position sorted x low high = .ok i) (hl : low ≤ high) : i ≤ high := by
  fun_induction position sorted x low high with
  | case1 => cases h
  | case2 low high hlt middle hless ih =>
    have := ih h (by omega)
    omega
  | case3 low high hlt middle hless ih => exact ih h (by omega)
  | case4 low high hge =>
    obtain rfl := Except.ok.inj h
    exact hl

theorem exists_position {sorted : Array Document} {x : Document} {low high : Nat}
    (hh : high ≤ sorted.size) (hc : Comparable (x :: sorted.toList)) :
    ∃ i, position sorted x low high = .ok i := by
  fun_induction position sorted x low high with
  | case1 low high hlt middle fault hless =>
    -- the middle lies within the array, so the comparison that failed was of two of the documents
    have hm : middle < sorted.size := by omega
    obtain ⟨b, hb⟩ := hc x (by simp) sorted[middle] (by simp)
    rw [Array.getElem?_eq_getElem hm, Option.getD_some, hb] at hless
    cases hless
  | case2 low high hlt middle hless ih => exact ih (by omega)
  | case3 low high hlt middle hless ih => exact ih hh
  | case4 low high hge => exact ⟨_, rfl⟩

theorem insertIdx_perm {sorted : Array Document} {x : Document} {i : Nat}
    (hi : position sorted x 0 sorted.size = .ok i) :
    (sorted.insertIdxIfInBounds i x).toList.Perm (x :: sorted.toList) := by
  have hsize : i ≤ sorted.toList.length := position_le hi (Nat.zero_le _)
  have hinsert : (sorted.insertIdxIfInBounds i x).toList = sorted.toList.insertIdx i x := by
    cases sorted
    simp
  rw [hinsert]
  exact List.perm_insertIdx x _ hsize

/-- Insertion puts every document in, and takes none out. -/
theorem insertAll_perm {sorted out : Array Document} {ds : List Document}
    (h : insertAll sorted ds = .ok out) : out.toList.Perm (sorted.toList ++ ds) := by
  induction ds generalizing sorted with
  | nil =>
    obtain rfl := Except.ok.inj h
    simp
  | cons x ds ih =>
    simp only [insertAll] at h
    split at h
    · cases h
    · exact ((ih h).trans ((insertIdx_perm ‹_›).append_right ds)).trans List.perm_middle.symm

theorem exists_insertAll {sorted : Array Document} {ds : List Document}
    (hc : Comparable (sorted.toList ++ ds)) : ∃ out, insertAll sorted ds = .ok out := by
  induction ds generalizing sorted with
  | nil => exact ⟨_, rfl⟩
  | cons x ds ih =>
    have hx : Comparable (x :: sorted.toList) := hc.mono (by simp; tauto)
    obtain ⟨i, hi⟩ : ∃ i, position sorted x 0 sorted.size = .ok i :=
      exists_position (Nat.le_refl sorted.size) hx
    simp only [insertAll, hi]
    refine ih (hc.mono fun d hd => ?_)
    rcases List.mem_append.mp hd with hd | hd
    · rcases List.mem_cons.mp ((insertIdx_perm hi).mem_iff.mp hd) with rfl | hd
      · simp
      · exact List.mem_append_left _ hd
    · simp [hd]

/-- Merging neither drops nor repeats a document. -/
theorem merge_perm {xs ys out : List Document} (h : merge xs ys = .ok out) :
    out.Perm (xs ++ ys) := by
  fun_induction merge xs ys generalizing out with
  | case1 ys =>
    obtain rfl := Except.ok.inj h
    exact List.Perm.refl _
  | case2 xs =>
    obtain rfl := Except.ok.inj h
    simp
  | case3 => cases h
  | case4 x xs y ys hless ih =>
    obtain ⟨out', ho, rfl⟩ := map_eq_ok h
    exact ((ih ho).cons y).trans List.perm_middle.symm
  | case5 x xs y ys hless ih =>
    obtain ⟨out', ho, rfl⟩ := map_eq_ok h
    exact (ih ho).cons x

theorem exists_merge {xs ys : List Document} (hc : Comparable (xs ++ ys)) :
    ∃ out, merge xs ys = .ok out := by
  fun_induction merge xs ys with
  | case1 ys => exact ⟨_, rfl⟩
  | case2 xs => exact ⟨_, rfl⟩
  | case3 x xs y ys fault hless =>
    obtain ⟨b, hb⟩ := hc y (by simp) x (by simp)
    rw [hb] at hless
    cases hless
  | case4 x xs y ys hless ih =>
    obtain ⟨out, ho⟩ := ih (hc.mono (by simp; tauto))
    exact ⟨y :: out, by rw [ho]; rfl⟩
  | case5 x xs y ys hless ih =>
    obtain ⟨out, ho⟩ := ih (hc.mono (by simp; tauto))
    exact ⟨x :: out, by rw [ho]; rfl⟩

/-- A run that is filled up, and what is left behind it, are the list that they were taken from. -/
theorem fill_perm {ds run rest : List Document} {filled : Array Document} {k : Nat}
    (hr : headRun ds = .ok (run, rest)) (hf : insertAll run.toArray (rest.take k) = .ok filled) :
    filled.toList ++ rest.drop k ~ ds :=
  calc filled.toList ++ rest.drop k
    _ ~ (run ++ rest.take k) ++ rest.drop k := (insertAll_perm hf).append_right _
    _ = run ++ rest := by rw [List.append_assoc, List.take_append_drop]
    _ ~ ds := (headRun_perm hr).1

/-- Every round of the sorting leaves fewer documents to sort. -/
theorem length_drop_headRun_lt {ds run rest : List Document} {k : Nat}
    (hr : headRun ds = .ok (run, rest)) (hds : ds ≠ []) : (rest.drop k).length < ds.length := by
  obtain ⟨hrun, hne⟩ := headRun_perm hr
  have hpos := List.length_pos_iff.mpr (hne hds)
  have hsum := hrun.length_eq
  simp only [List.length_append, List.length_drop] at hsum ⊢
  omega

section Parts

variable {ds run rest done merged : List Document} {filled : Array Document} {k : Nat}
  {d : Document}

/-- What is inserted into the run at the head of a list, and the run itself, come from the list. -/
theorem mem_of_headRun (hr : headRun ds = .ok (run, rest))
    (hd : d ∈ run.toArray.toList ++ rest.take k) : d ∈ ds := by
  refine (headRun_perm hr).1.mem_iff.mp ?_
  rcases List.mem_append.mp hd with hd | hd
  · exact List.mem_append_left _ hd
  · exact List.mem_append_right _ (List.mem_of_mem_take hd)

theorem mem_of_filled (hr : headRun ds = .ok (run, rest))
    (hi : insertAll run.toArray (rest.take k) = .ok filled) (hd : d ∈ done ++ filled.toList) :
    d ∈ done ++ ds := by
  rcases List.mem_append.mp hd with hd | hd
  · exact List.mem_append_left _ hd
  · exact List.mem_append_right _ ((fill_perm hr hi).mem_iff.mp (List.mem_append_left _ hd))

theorem mem_of_merged (hr : headRun ds = .ok (run, rest))
    (hi : insertAll run.toArray (rest.take k) = .ok filled)
    (hm : merge done filled.toList = .ok merged) (hd : d ∈ merged ++ rest.drop k) :
    d ∈ done ++ ds := by
  rcases List.mem_append.mp hd with hd | hd
  · exact mem_of_filled hr hi ((merge_perm hm).mem_iff.mp hd)
  · exact List.mem_append_right _ ((fill_perm hr hi).mem_iff.mp (List.mem_append_right _ hd))

end Parts

/-- Sorting by runs gives a permutation, as long as its fuel is not below the number of
documents. -/
theorem sortRuns_perm {least fuel : Nat} {done ds out : List Document} (hf : ds.length ≤ fuel)
    (h : sortRuns least fuel done ds = .ok out) : out ~ done ++ ds := by
  induction fuel generalizing done ds with
  | zero =>
    obtain rfl := Except.ok.inj h
    simp [List.length_eq_zero_iff.mp (Nat.le_zero.mp hf)]
  | succ fuel ih =>
    cases ds with
    | nil =>
      obtain rfl := Except.ok.inj h
      simp
    | cons d ds =>
      simp only [sortRuns] at h
      obtain ⟨⟨run, rest⟩, hr, h⟩ := bind_eq_ok h
      obtain ⟨filled, hi, h⟩ := bind_eq_ok h
      obtain ⟨merged, hm, h⟩ := bind_eq_ok h
      -- every run has a document, so the fuel lasts
      have hlen : (rest.drop (least - run.length)).length < (d :: ds).length :=
        length_drop_headRun_lt hr (List.cons_ne_nil d ds)
      calc out
        _ ~ merged ++ rest.drop (least - run.length) := ih (by simp at hlen hf ⊢; omega) h
        _ ~ (done ++ filled.toList) ++ rest.drop (least - run.length) :=
          (merge_perm hm).append_right _
        _ = done ++ (filled.toList ++ rest.drop (least - run.length)) := List.append_assoc _ _ _
        _ ~ done ++ (d :: ds) := (fill_perm hr hi).append_left done

/-- Sorting by runs succeeds on documents that can be compared. -/
theorem exists_sortRuns {least fuel : Nat} {done ds : List Document} (hf : ds.length ≤ fuel)
    (hc : Comparable (done ++ ds)) : ∃ out, sortRuns least fuel done ds = .ok out := by
  induction fuel generalizing done ds with
  | zero => exact ⟨done, by cases ds <;> rfl⟩
  | succ fuel ih =>
    cases ds with
    | nil => exact ⟨done, rfl⟩
    | cons d ds =>
      obtain ⟨⟨run, rest⟩, hr⟩ :=
        exists_headRun (hc.mono fun e he => List.mem_append_right done he)
      obtain ⟨filled, hi⟩ := exists_insertAll
        (hc.mono fun e he => List.mem_append_right done (mem_of_headRun hr he))
      obtain ⟨merged, hm⟩ := exists_merge (hc.mono fun e he => mem_of_filled hr hi he)
      have hlen : (rest.drop (least - run.length)).length < (d :: ds).length :=
        length_drop_headRun_lt hr (List.cons_ne_nil d ds)
      have hmerged : Comparable (merged ++ rest.drop (least - run.length)) :=
        hc.mono fun e he => mem_of_merged hr hi hm he
      obtain ⟨out, ho⟩ := ih (by simp at hlen hf ⊢; omega) hmerged
      refine ⟨out, ?_⟩
      simp only [sortRuns, hr, hi, hm, ho, Bind.bind, Except.bind]

theorem allTexts?_eq_some {ds : List Document} {texts : List String}
    (h : allTexts? ds = some texts) : ds = texts.map string := by
  induction ds generalizing texts with
  | nil =>
    obtain rfl := Option.some.inj h
    rfl
  | cons d ds ih =>
    simp only [allTexts?, List.mapM_cons, Option.bind_eq_bind, Option.bind_eq_some_iff] at h
    obtain ⟨s, hs, rest, hr, he⟩ := h
    obtain rfl := Option.some.inj he
    rw [List.map_cons, ← ih hr]
    cases d <;> simp_all [text?]

/-- Sorting keeps every document, and each as often as it occurs. -/
theorem sort_perm {ds out : List Document} (h : sort ds = .ok out) : out ~ ds := by
  unfold sort at h
  split at h
  · rename_i texts ht
    obtain rfl := Except.ok.inj h
    rw [allTexts?_eq_some ht]
    exact (sortTexts_perm texts).map string
  · simpa using sortRuns_perm (Nat.le_refl _) h

/-- Sorting succeeds if any two documents can be compared. -/
theorem exists_sort_of_comparable {ds : List Document} (hc : Comparable ds) :
    ∃ out, sort ds = .ok out := by
  unfold sort
  split
  · exact ⟨_, rfl⟩
  · exact exists_sortRuns (Nat.le_refl _) (by simpa using hc)

@[simp] theorem less_int (n m : Int) : less (int n) (int m) = .ok (decide (n < m)) := by
  simp only [less, quantity?, Numeral.Quantity.less_ofInt]

/-- Whole numbers can be compared. -/
theorem comparable_map_int (ns : List Int) : Comparable (ns.map int) := by
  intro x hx y hy
  obtain ⟨n, -, rfl⟩ := List.mem_map.mp hx
  obtain ⟨m, -, rfl⟩ := List.mem_map.mp hy
  exact ⟨_, less_int n m⟩

/-- Numbers in order are one run. -/
theorem takeRun_of_sorted {last : Int} {ns : List Int} (h : (last :: ns).Pairwise (· ≤ ·)) :
    takeRun false (int last) (ns.map int) = .ok (ns.map int, []) := by
  induction ns generalizing last with
  | nil => rfl
  | cons n ns ih =>
    obtain ⟨hl, hn⟩ := List.pairwise_cons.mp h
    have hle : ¬ n < last := Int.not_lt.mpr (hl n List.mem_cons_self)
    simp [takeRun, less_int, hle, ih hn, Except.map]

/-- A sorted list of whole numbers is one run. -/
theorem headRun_of_sorted {ns : List Int} (h : ns.Pairwise (· ≤ ·)) :
    headRun (ns.map int) = .ok (ns.map int, []) := by
  match ns, h with
  | [], _ => rfl
  | [n], _ => rfl
  | n :: m :: ns, h =>
    obtain ⟨hl, hn⟩ := List.pairwise_cons.mp h
    have hle : ¬ m < n := Int.not_lt.mpr (hl m List.mem_cons_self)
    simp [headRun, less_int, hle, takeRun_of_sorted hn, Except.map]

/-- Numbers in order stay as they are. -/
theorem sort_of_sorted {ns : List Int} (h : ns.Pairwise (· ≤ ·)) :
    sort (ns.map int) = .ok (ns.map int) := by
  unfold sort
  split
  · -- only the empty list is of texts and of numbers
    rename_i texts ht
    have hds := allTexts?_eq_some ht
    cases ns with
    | nil =>
      obtain rfl := List.map_eq_nil_iff.mp hds.symm
      simp [sortTexts]
    | cons n ns => cases texts <;> simp at hds
  · cases ns with
    | nil => rfl
    | cons n ns =>
      have hrun := headRun_of_sorted h
      rw [List.map_cons] at hrun ⊢
      simp only [List.length_cons, sortRuns, hrun, Bind.bind, Except.bind, List.take_nil,
        List.drop_nil, insertAll, merge]
      cases (ns.map int).length <;> simp [sortRuns]

end IngressControl.Document
