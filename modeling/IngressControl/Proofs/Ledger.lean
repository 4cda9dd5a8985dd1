import IngressControl.Ledger
import Mathlib.Data.List.Nodup
import Mathlib.Tactic.ByContra
import Mathlib.Tactic.Tauto

/-! Further laws of ledgers: which keys a ledger has, that writing and removing keep the keys
different, and that a ledger with different keys is known from its look-ups. -/

namespace IngressControl.Ledger

variable {κ α : Type} [DecidableEq κ]

/-- Nothing is found exactly under the keys that the ledger lacks. -/
theorem get?_eq_none_iff {key : κ} {ledger : List (κ × α)} :
    get? key ledger = none ↔ key ∉ keys ledger := by
  induction ledger with
  | nil => simp [get?, keys]
  | cons entry rest ih =>
    obtain ⟨k, v⟩ := entry
    simp only [keys] at ih
    by_cases h : k = key
    · simp [get?, keys, h]
    · simp [get?, keys, h, ih, Ne.symm h]

theorem mem_keys_of_get? {key : κ} {value : α} {ledger : List (κ × α)}
    (h : get? key ledger = some value) : key ∈ keys ledger := by
  by_contra hn
  rw [← get?_eq_none_iff, h] at hn
  exact absurd hn (by simp)

theorem mem_of_get? {key : κ} {value : α} {ledger : List (κ × α)}
    (h : get? key ledger = some value) : (key, value) ∈ ledger := by
  induction ledger with
  | nil => simp [get?] at h
  | cons entry rest ih =>
    obtain ⟨k, v⟩ := entry
    by_cases hk : k = key
    · simp_all [get?]
    · simp only [get?, hk, if_false] at h
      exact List.mem_cons_of_mem _ (ih h)

/-- With different keys every entry is found under its key. -/
theorem get?_of_mem {key : κ} {value : α} {ledger : List (κ × α)} (hn : (keys ledger).Nodup)
    (h : (key, value) ∈ ledger) : get? key ledger = some value := by
  induction ledger with
  | nil => simp at h
  | cons entry rest ih =>
    obtain ⟨k, v⟩ := entry
    obtain ⟨hk, hrest⟩ := List.nodup_cons.mp hn
    rcases List.mem_cons.mp h with he | hm
    · simp_all [get?]
    · have hne : k ≠ key := by
        rintro rfl
        have hkey := List.mem_map_of_mem (f := Prod.fst) hm
        exact hk hkey
      simp only [get?, hne, if_false]
      exact ih hrest hm

/-- What stands in a ledger after a value was written. -/
theorem get?_put_eq_some_iff {key other : κ} {value found : α} {ledger : List (κ × α)} :
    get? other (put key value ledger) = some found ↔
      other = key ∧ value = found ∨ other ≠ key ∧ get? other ledger = some found := by
  by_cases hk : other = key <;> simp [hk]

/-- What stands in a ledger after a key was removed. -/
theorem get?_erase_eq_some_iff {key other : κ} {found : α} {ledger : List (κ × α)} :
    get? other (erase key ledger) = some found ↔
      other ≠ key ∧ get? other ledger = some found := by
  by_cases hk : other = key <;> simp [hk]

@[simp] theorem mem_keys_put {key other : κ} {value : α} {ledger : List (κ × α)} :
    other ∈ keys (put key value ledger) ↔ other = key ∨ other ∈ keys ledger := by
  induction ledger with
  | nil => simp [put, keys]
  | cons entry rest ih =>
    obtain ⟨k, v⟩ := entry
    simp only [keys] at ih
    by_cases h : k = key
    · simp [put, keys, h]
    · simp only [put, keys, h, if_false, List.map_cons, List.mem_cons, ih]
      tauto

/-- What is new is written at the end. -/
theorem put_of_not_mem {key : κ} {ledger : List (κ × α)} (h : key ∉ keys ledger) (value : α) :
    put key value ledger = ledger ++ [(key, value)] := by
  induction ledger with
  | nil => rfl
  | cons entry rest ih =>
    obtain ⟨k, v⟩ := entry
    simp only [keys, List.map_cons, List.mem_cons, not_or] at h
    simp [put, Ne.symm h.1, ih h.2]

/-- A value in place of one that looks the same changes nothing of what is seen. -/
theorem filterMap_put {β : Type} {f : α → Option β} {key : κ} {value old : α}
    {ledger : List (κ × α)} (hg : get? key ledger = some old) (hf : f value = f old) :
    ((put key value ledger).map Prod.snd).filterMap f = (ledger.map Prod.snd).filterMap f := by
  induction ledger with
  | nil => simp [get?] at hg
  | cons entry rest ih =>
    obtain ⟨k, v⟩ := entry
    by_cases hk : k = key
    · simp only [get?, hk, if_true, Option.some.injEq] at hg
      subst hg
      simp [put, hk, List.filterMap_cons, hf]
    · simp only [get?, hk, if_false] at hg
      simp only [put, hk, if_false, List.map_cons, List.filterMap_cons, ih hg]

/-- Putting a value keeps the keys different. -/
theorem nodup_keys_put {key : κ} {value : α} {ledger : List (κ × α)} (hn : (keys ledger).Nodup) :
    (keys (put key value ledger)).Nodup := by
  induction ledger with
  | nil => simp [put, keys]
  | cons entry rest ih =>
    obtain ⟨k, v⟩ := entry
    obtain ⟨hk, hrest⟩ := List.nodup_cons.mp hn
    by_cases h : k = key
    · simp only [put, h, if_true]
      exact List.nodup_cons.mpr ⟨h ▸ hk, hrest⟩
    · simp only [put, h, if_false]
      refine List.nodup_cons.mpr ⟨?_, ih hrest⟩
      intro hm
      rcases mem_keys_put.mp hm with he | hm
      · exact h he
      · exact hk hm

theorem keys_erase_subset {key : κ} {ledger : List (κ × α)} :
    keys (erase key ledger) ⊆ keys ledger := by
  intro k hk
  obtain ⟨entry, he, rfl⟩ := List.mem_map.mp hk
  exact List.mem_map_of_mem (List.mem_filter.mp he).1

@[simp] theorem mem_keys_erase {key other : κ} {ledger : List (κ × α)} :
    other ∈ keys (erase key ledger) ↔ other ≠ key ∧ other ∈ keys ledger := by
  simp only [keys, erase, List.mem_map, List.mem_filter, Bool.not_eq_true', decide_eq_false_iff_not]
  constructor
  · rintro ⟨entry, ⟨he, hne⟩, rfl⟩
    exact ⟨hne, entry, he, rfl⟩
  · rintro ⟨hne, entry, he, rfl⟩
    exact ⟨entry, ⟨he, hne⟩, rfl⟩

theorem nodup_keys_erase {key : κ} {ledger : List (κ × α)} (hn : (keys ledger).Nodup) :
    (keys (erase key ledger)).Nodup :=
  hn.sublist (List.Sublist.map Prod.fst List.filter_sublist)

/-- Putting what is already there changes nothing, and nothing else does. -/
@[simp] theorem put_eq_self_iff {key : κ} {value : α} {ledger : List (κ × α)} :
    put key value ledger = ledger ↔ get? key ledger = some value := by
  induction ledger with
  | nil => simp [put, get?]
  | cons entry rest ih =>
    obtain ⟨k, v⟩ := entry
    by_cases hk : k = key
    · simp [put, get?, hk, eq_comm]
    · simp [put, get?, hk, ih]

/-- A new key goes to the end, and a known one keeps its place. -/
theorem keys_put (key : κ) (value : α) (ledger : List (κ × α)) :
    keys (put key value ledger) =
      if key ∈ keys ledger then keys ledger else keys ledger ++ [key] := by
  split
  · next hmem =>
    induction ledger with
    | nil => cases hmem
    | cons entry rest ih =>
      obtain ⟨k, v⟩ := entry
      by_cases hk : k = key
      · simp [put, keys, hk]
      · have hrest : key ∈ keys rest := (List.mem_cons.mp hmem).resolve_left (Ne.symm hk)
        simpa [put, keys, hk] using ih hrest
  · next hmem =>
    rw [put_of_not_mem hmem, keys, List.map_append]
    rfl

theorem keys_erase (key : κ) (ledger : List (κ × α)) :
    keys (erase key ledger) = (keys ledger).filter fun other => !decide (other = key) := by
  rw [keys, keys, erase, List.filter_map]
  rfl

/-- A ledger is known from its keys and what stands under them. -/
theorem eq_of_get?_eq {first second : List (κ × α)} (hn : (keys first).Nodup)
    (hk : keys first = keys second) (hg : ∀ key, get? key first = get? key second) :
    first = second := by
  induction first generalizing second with
  | nil => exact (List.map_eq_nil_iff.mp hk.symm).symm
  | cons entry rest ih =>
    obtain ⟨k, v⟩ := entry
    cases second with
    | nil => cases hk
    | cons entry' rest' =>
      obtain ⟨k', v'⟩ := entry'
      obtain ⟨rfl, hrest⟩ : k = k' ∧ keys rest = keys rest' := by simpa [keys] using hk
      obtain ⟨hnot, hn'⟩ := List.nodup_cons.mp hn
      have hv : v = v' := by simpa [get?] using hg k
      rw [hv, ih hn' hrest]
      intro key
      by_cases hkey : k = key
      · -- the first key stands in neither rest
        subst hkey
        rw [get?_eq_none_iff.mpr hnot, get?_eq_none_iff.mpr (hrest ▸ hnot)]
      · simpa [get?, hkey] using hg key

/-- The values of a ledger, in the order of its keys. -/
theorem filterMap_get?_keys {ledger : List (κ × α)} (hn : (keys ledger).Nodup) :
    (keys ledger).filterMap (fun key => get? key ledger) = ledger.map Prod.snd := by
  rw [keys, List.filterMap_map]
  have hfound : ∀ entry ∈ ledger,
      ((fun key => get? key ledger) ∘ Prod.fst) entry = some entry.2 :=
    fun entry hmem => get?_of_mem hn hmem
  rw [List.filterMap_congr hfound, List.filterMap_eq_map']

theorem forall_get?_put {P : α → Prop} {key : κ} {value : α} {ledger : List (κ × α)}
    (h : ∀ key value, get? key ledger = some value → P value) (hv : P value) :
    ∀ key' value', get? key' (put key value ledger) = some value' → P value' := by
  intro key' value' hg
  rcases get?_put_eq_some_iff.mp hg with ⟨-, rfl⟩ | ⟨-, hg⟩
  · exact hv
  · exact h key' value' hg

theorem forall_get?_erase {P : α → Prop} {key : κ} {ledger : List (κ × α)}
    (h : ∀ key value, get? key ledger = some value → P value) :
    ∀ key' value', get? key' (erase key ledger) = some value' → P value' :=
  fun key' value' hg => h key' value' (get?_erase_eq_some_iff.mp hg).2

end IngressControl.Ledger
