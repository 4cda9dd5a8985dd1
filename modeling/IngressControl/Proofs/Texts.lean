import IngressControl.Cloud.Basic
import IngressControl.Engine.Targets
import Mathlib.Data.List.Basic
import Mathlib.Data.List.Nodup
import Mathlib.Data.List.Perm.Basic
import Mathlib.Tactic.Tauto

/-! Documents that are texts, such as the instances of nodes. On texts the equality of values is
identity, everything can be a key and everything can be sorted, so collections of texts behave like
sets. -/

namespace IngressControl
open scoped List

theorem pairwise_sortTexts (texts : List String) : (sortTexts texts).Pairwise (· ≤ ·) := by
  have hs : (sortTexts texts).Pairwise fun a b => decide (a ≤ b) = true := by
    refine List.pairwise_mergeSort (fun a b c hab hbc => ?_) (fun a b => ?_) texts
    · simp only [decide_eq_true_eq] at *
      exact String.le_trans hab hbc
    · simpa using String.le_total a b
  exact hs.imp fun h => by simpa using h

/-- Sorted texts depend on the texts only, not on their order. -/
theorem sortTexts_eq_of_perm {xs ys : List String} (h : xs ~ ys) :
    sortTexts xs = sortTexts ys := by
  refine List.Perm.eq_of_pairwise (fun a b _ _ hab hba => String.le_antisymm hab hba)
    (pairwise_sortTexts xs) (pairwise_sortTexts ys) ?_
  exact (sortTexts_perm xs).trans (h.trans (sortTexts_perm ys).symm)

namespace Document

def IsText (d : Document) : Prop := ∃ s, d = string s

/-- A list of texts. -/
def Texts (ds : List Document) : Prop := ∀ d ∈ ds, d.IsText

/-- Texts in order, each once. -/
def Ascending (ds : List Document) : Prop :=
  ∃ texts : List String, ds = texts.map string ∧ texts.Pairwise (· < ·)

@[simp] theorem same_string_iff (d : Document) (s : String) :
    d.same (string s) = true ↔ d = string s := by
  cases d <;> simp [same, quantity?]

theorem isAmong_string_iff (s : String) (ds : List Document) :
    (string s).isAmong ds = true ↔ string s ∈ ds := by
  simp [isAmong, List.any_eq_true, same_string_iff]

/-- For a text, being equal to a document of a list is membership. -/
theorem IsText.isAmong_iff {d : Document} (hd : d.IsText) (ds : List Document) :
    d.isAmong ds = true ↔ d ∈ ds := by
  obtain ⟨s, rfl⟩ := hd
  exact isAmong_string_iff s ds

namespace Texts

variable {ds es : List Document}

theorem nil : Texts [] := fun _ h => absurd h List.not_mem_nil

theorem append (hd : Texts ds) (he : Texts es) : Texts (ds ++ es) := by
  intro d h
  rcases List.mem_append.mp h with h | h
  · exact hd d h
  · exact he d h

theorem mono (h : ∀ d ∈ es, d ∈ ds) (hd : Texts ds) : Texts es := fun d he => hd d (h d he)

theorem exists_map (hd : Texts ds) : ∃ texts : List String, ds = texts.map string := by
  induction ds with
  | nil => exact ⟨[], rfl⟩
  | cons d rest ih =>
    obtain ⟨s, rfl⟩ := hd d List.mem_cons_self
    obtain ⟨texts, rfl⟩ := ih fun d h => hd d (List.mem_cons_of_mem _ h)
    exact ⟨s :: texts, rfl⟩

/-- Texts can always be sorted. -/
theorem exists_sort (hd : Texts ds) : ∃ sorted, sort ds = .ok sorted ∧ sorted.Perm ds := by
  obtain ⟨texts, rfl⟩ := hd.exists_map
  exact ⟨_, sort_map_string texts, (sortTexts_perm texts).map string⟩

theorem ascending_of_sort (hd : Texts ds) (hn : ds.Nodup) (h : sort ds = .ok es) :
    Ascending es := by
  obtain ⟨texts, rfl⟩ := hd.exists_map
  rw [sort_map_string] at h
  refine ⟨sortTexts texts, (Except.ok.inj h).symm, ?_⟩
  have hnodup : (sortTexts texts).Nodup := (sortTexts_perm texts).nodup_iff.mpr hn.of_map
  exact (pairwise_sortTexts texts).imp₂ (fun _ _ hle hne =>
    String.not_le.mp fun hge => hne (String.le_antisymm hle hge)) hnodup

/-- In whatever order texts stand, they are sorted the same way. -/
theorem sort_eq_of_perm (hd : Texts ds) (hp : ds ~ es) : sort ds = sort es := by
  have he : Texts es := hd.mono fun d h => hp.mem_iff.mpr h
  obtain ⟨xs, rfl⟩ := hd.exists_map
  obtain ⟨ys, rfl⟩ := he.exists_map
  have hinj : Function.Injective string := fun s t h => string.inj h
  simp [sortTexts_eq_of_perm ((List.map_perm_map_iff hinj).mp hp)]

theorem mapM_asKey (hd : Texts ds) : ds.mapM asKey = .ok ds := by
  induction ds with
  | nil => rfl
  | cons d rest ih =>
    obtain ⟨s, rfl⟩ := hd d List.mem_cons_self
    rw [List.mapM_cons, ih fun d h => hd d (List.mem_cons_of_mem _ h)]
    rfl

end Texts

end Document

open Document (Texts)

namespace Cloud

@[simp] theorem join_cons (targets : List Document) (i : Document) (rest : List Document) :
    join targets (i :: rest) =
      join (if i.isAmong targets then targets else targets ++ [i]) rest := rfl

theorem mem_of_mem_join {d : Document} {targets instances : List Document}
    (h : d ∈ join targets instances) : d ∈ targets ∨ d ∈ instances := by
  induction instances generalizing targets with
  | nil => exact Or.inl h
  | cons i rest ih =>
    rw [join_cons] at h
    rcases ih h with h | h
    · split at h
      · exact Or.inl h
      · rcases List.mem_append.mp h with h | h
        · exact Or.inl h
        · exact Or.inr (List.mem_singleton.mp h ▸ List.mem_cons_self)
    · exact Or.inr (List.mem_cons_of_mem _ h)

/-- What joins a set of texts is in it afterwards, with all that was there. -/
theorem mem_join {d : Document} {targets instances : List Document} (hi : Texts instances) :
    d ∈ join targets instances ↔ d ∈ targets ∨ d ∈ instances := by
  refine ⟨mem_of_mem_join, ?_⟩
  induction instances generalizing targets with
  | nil => simp [join]
  | cons i rest ih =>
    intro h
    have hrest : Texts rest := hi.mono fun d h => List.mem_cons_of_mem _ h
    have hknown := (hi i List.mem_cons_self).isAmong_iff targets
    rw [join_cons]
    apply ih hrest
    rcases h with h | h
    · left
      split
      · exact h
      · exact List.mem_append_left _ h
    · rcases List.mem_cons.mp h with rfl | h
      · left
        split
        · exact hknown.mp ‹_›
        · exact List.mem_append_right _ List.mem_cons_self
      · exact Or.inr h

/-- Joining keeps a list free of repetitions. -/
theorem nodup_join {targets : List Document} (ht : targets.Nodup) (instances : List Document) :
    (join targets instances).Nodup := by
  induction instances generalizing targets with
  | nil => exact ht
  | cons i rest ih =>
    rw [join_cons]
    apply ih
    split
    · exact ht
    · -- what is identical to a target is among the targets
      rename_i hn
      refine List.nodup_append.mpr ⟨ht, List.nodup_singleton i, fun d hd e he => ?_⟩
      obtain rfl := List.mem_singleton.mp he
      rintro rfl
      exact hn (List.any_eq_true.mpr ⟨d, hd, by simp⟩)

/-- What leaves a set of texts is gone, and the rest stays. -/
theorem mem_leave {d : Document} {targets instances : List Document} (ht : Texts targets) :
    d ∈ leave targets instances ↔ d ∈ targets ∧ d ∉ instances := by
  simp only [leave, List.mem_filter]
  apply and_congr_right
  intro hd
  rw [← (ht d hd).isAmong_iff]
  simp

end Cloud

namespace Engine

-- what the engine makes of instances and what the cloud makes of targets are the same functions
/-- The engine takes repetitions out as the service does. -/
theorem distinct_eq_join (ds : List Document) : distinct ds = Cloud.join [] ds := rfl

theorem without_eq_leave (ds others : List Document) : without ds others = Cloud.leave ds others :=
  rfl

theorem mem_distinct {d : Document} {ds : List Document} (hd : Texts ds) :
    d ∈ distinct ds ↔ d ∈ ds := by
  simp [distinct_eq_join, Cloud.mem_join hd]

theorem mem_without {d : Document} {ds others : List Document} (hd : Texts ds) :
    d ∈ without ds others ↔ d ∈ ds ∧ d ∉ others := by
  rw [without_eq_leave, Cloud.mem_leave hd]

theorem setOf_eq {ds : List Document} (hd : Texts ds) : setOf ds = .ok (distinct ds) := by
  rw [setOf, hd.mapM_asKey]
  rfl

theorem nodup_distinct (ds : List Document) : (distinct ds).Nodup :=
  Cloud.nodup_join List.nodup_nil ds

/-- Texts can be sorted into a set, which has the same members. -/
theorem exists_sortedSet {ds : List Document} (hd : Texts ds) :
    ∃ sorted, sortedSet ds = .ok sorted ∧ ∀ d, d ∈ sorted ↔ d ∈ ds := by
  have hdistinct : Texts (distinct ds) := hd.mono fun d h => (mem_distinct hd).mp h
  obtain ⟨sorted, hs, hp⟩ := hdistinct.exists_sort
  exact ⟨sorted, hs, fun d => hp.mem_iff.trans (mem_distinct hd)⟩

theorem ascending_of_sortedSet {ds sorted : List Document} (hd : Texts ds)
    (h : sortedSet ds = .ok sorted) : Document.Ascending sorted := by
  have hdistinct : Texts (distinct ds) := hd.mono fun d h => (mem_distinct hd).mp h
  exact hdistinct.ascending_of_sort (nodup_distinct ds) h

section SameMembers

variable {ds es wanted : List Document}

theorem perm_distinct (hd : Texts ds) (hm : ∀ d, d ∈ es ↔ d ∈ ds) : distinct ds ~ distinct es := by
  have he : Texts es := hd.mono fun d h => (hm d).mp h
  rw [List.perm_ext_iff_of_nodup (nodup_distinct ds) (nodup_distinct es)]
  intro d
  rw [mem_distinct hd, mem_distinct he, hm]

/-- What is sorted as a set depends on the members only. -/
theorem sortedSet_eq_of_mem (hd : Texts ds) (hm : ∀ d, d ∈ es ↔ d ∈ ds) :
    sortedSet es = sortedSet ds := by
  have hdistinct : Texts (distinct ds) := hd.mono fun d h => (mem_distinct hd).mp h
  exact (hdistinct.sort_eq_of_perm (perm_distinct hd hm)).symm

/-- So does what is to be added and to be removed. -/
theorem alignment_eq_of_mem (hd : Texts ds) (hw : Texts wanted) (hm : ∀ d, d ∈ es ↔ d ∈ ds) :
    alignment es wanted = alignment ds wanted := by
  have he : Texts es := hd.mono fun d h => (hm d).mp h
  have hp := perm_distinct hd hm
  have hdistinct : Texts (distinct ds) := hd.mono fun d h => (mem_distinct hd).mp h
  have hadd : without (distinct wanted) (distinct es) =
      without (distinct wanted) (distinct ds) := by
    refine List.filter_congr fun d hmem => ?_
    have htext := hw d ((mem_distinct hw).mp hmem)
    rw [Bool.eq_iff_iff, Bool.not_eq_true', Bool.not_eq_true', ← Bool.not_eq_true,
      ← Bool.not_eq_true, htext.isAmong_iff, htext.isAmong_iff, hp.mem_iff]
  have hremove : Document.sort (without (distinct es) (distinct wanted)) =
      Document.sort (without (distinct ds) (distinct wanted)) :=
    (Texts.sort_eq_of_perm (hdistinct.mono fun d h => (List.mem_filter.mp h).1)
      (hp.filter _)).symm
  simp only [alignment, setOf_eq hd, setOf_eq he, setOf_eq hw, hadd, hremove, Bind.bind,
    Except.bind]

end SameMembers

end Engine

end IngressControl
