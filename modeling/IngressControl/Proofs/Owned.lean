import IngressControl.Engine.Plan
import Mathlib.Data.List.Nodup
import Mathlib.Tactic.Tauto

/-! The ingresses that a cycle takes up: of those addressed to the engine the first one of each
identity. -/

namespace IngressControl.Engine

variable {context : Context} {id : Identity} {ingress : Document} {ingresses : List Document}

/-- The first occurrences among some ingresses, behind those that are known already. -/
def ownedFrom (context : Context) (kept : List (Identity × Document)) (ingresses : List Document) :
    List (Identity × Document) :=
  ingresses.foldl (fun kept ingress =>
    match owner? context ingress with
    | some id => if kept.any (fun entry => decide (entry.1 = id)) then kept
        else kept ++ [(id, ingress)]
    | none => kept) kept

theorem owned_eq (ingresses : List Document) :
    owned context ingresses = ownedFrom context [] ingresses := rfl

theorem ownedFrom_cons (kept : List (Identity × Document)) (first : Document)
    (rest : List Document) :
    (∃ id, owner? context first = some id ∧ id ∉ kept.map Prod.fst ∧
      ownedFrom context kept (first :: rest) = ownedFrom context (kept ++ [(id, first)]) rest) ∨
    ((∀ id, owner? context first = some id → id ∈ kept.map Prod.fst) ∧
      ownedFrom context kept (first :: rest) = ownedFrom context kept rest) := by
  simp only [ownedFrom, List.foldl_cons]
  cases ho : owner? context first with
  | none => exact Or.inr ⟨fun _ h => absurd h (by simp), rfl⟩
  | some id =>
    by_cases hk : id ∈ kept.map Prod.fst
    · refine Or.inr ⟨fun id' h => Option.some.inj h ▸ hk, ?_⟩
      have hany : kept.any (fun entry => decide (entry.1 = id)) = true := by
        simpa [List.any_eq_true] using hk
      simp [hany]
    · refine Or.inl ⟨id, rfl, hk, ?_⟩
      have hany : ¬ kept.any (fun entry => decide (entry.1 = id)) = true := by
        simpa [List.any_eq_true] using hk
      simp [hany]

theorem mem_ownedFrom (kept : List (Identity × Document)) :
    (id, ingress) ∈ ownedFrom context kept ingresses ↔ (id, ingress) ∈ kept ∨
      (id ∉ kept.map Prod.fst ∧
        ingresses.find? (fun i => owner? context i == some id) = some ingress) := by
  induction ingresses generalizing kept with
  | nil => simp [ownedFrom]
  | cons first rest ih =>
    rcases ownedFrom_cons kept first rest with ⟨id', ho, hk, he⟩ | ⟨hk, he⟩
    · -- a new identity is known from here on, so a later ingress of it does not count
      rw [he, ih]
      by_cases hid : id' = id
      · subst hid
        simp [ho, hk]
        tauto
      · simp [ho, hid, Ne.symm hid]
    · rw [he, ih]
      by_cases ho : owner? context first = some id
      · have hmem := hk id ho
        simp [hmem]
      · simp [ho]

theorem nodup_ownedFrom {kept : List (Identity × Document)} (hk : (kept.map Prod.fst).Nodup) :
    ((ownedFrom context kept ingresses).map Prod.fst).Nodup := by
  induction ingresses generalizing kept with
  | nil => exact hk
  | cons first rest ih =>
    rcases ownedFrom_cons kept first rest with ⟨id', ho, hn, he⟩ | ⟨-, he⟩
    · rw [he]
      apply ih
      rw [List.map_append]
      exact List.Nodup.append hk (List.nodup_singleton _) (by simpa using hn)
    · rw [he]
      exact ih hk

theorem map_fst_ownedFrom (kept : List (Identity × Document)) :
    (ownedFrom context kept ingresses).map Prod.fst = kept.map Prod.fst ++
      ((ingresses.filterMap (owner? context)).filter fun id =>
        !(kept.map Prod.fst).contains id).eraseDups := by
  induction ingresses generalizing kept with
  | nil => simp [ownedFrom]
  | cons first rest ih =>
    rcases ownedFrom_cons kept first rest with ⟨id, ho, hk, he⟩ | ⟨hk, he⟩
    · rw [he, ih, List.filterMap_cons_some ho, List.filter_cons_of_pos (by simpa using hk),
        List.eraseDups_cons, List.map_append, List.append_assoc, List.filter_filter]
      -- a new identity counts from its first ingress on, which takes off the later ones
      have hsame : (fun x => !(kept.map Prod.fst ++ [(id, first)].map Prod.fst).contains x) =
          fun x => !x == id && !(kept.map Prod.fst).contains x := by
        funext x
        rw [List.contains_append, Bool.not_or, Bool.and_comm]
        simp [List.contains_eq_mem, beq_eq_decide]
      rw [hsame]
      simp
    · rw [he, ih]
      cases ho : owner? context first with
      | none => rw [List.filterMap_cons_none ho]
      | some id =>
        have hknown := hk id ho
        rw [List.filterMap_cons_some ho, List.filter_cons_of_neg (by simpa using hknown)]

/-- The identities that are taken up, in the order in which they first occur. -/
theorem map_fst_owned :
    (owned context ingresses).map Prod.fst =
      (ingresses.filterMap (owner? context)).eraseDups := by
  rw [owned_eq, map_fst_ownedFrom]
  simp

/-- An identity is owned by the first ingress that has it. -/
theorem mem_owned : (id, ingress) ∈ owned context ingresses ↔
    ingresses.find? (fun i => owner? context i == some id) = some ingress := by
  rw [owned_eq, mem_ownedFrom]
  simp

/-- No identity is owned twice. -/
theorem nodup_owned : ((owned context ingresses).map Prod.fst).Nodup :=
  nodup_ownedFrom List.nodup_nil

theorem mem_owned_identities : id ∈ (owned context ingresses).map Prod.fst ↔
    ∃ ingress ∈ ingresses, owner? context ingress = some id := by
  constructor
  · rintro h
    obtain ⟨⟨id, ingress⟩, hm, rfl⟩ := List.mem_map.mp h
    have hf := mem_owned.mp hm
    exact ⟨ingress, List.mem_of_find?_eq_some hf, by simpa using List.find?_some hf⟩
  · rintro ⟨ingress, hm, ho⟩
    obtain ⟨first, hf⟩ := Option.isSome_iff_exists.mp
      (List.find?_isSome (p := fun i => owner? context i == some id).mpr
        ⟨ingress, hm, by simp [ho]⟩)
    exact List.mem_map.mpr ⟨(id, first), mem_owned.mpr hf, rfl⟩

end IngressControl.Engine
