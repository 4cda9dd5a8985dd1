/-!
Ledgers: values by key, in the order in which the keys were first written.
-/

namespace IngressControl.Ledger

variable {κ α : Type} [DecidableEq κ]

def get? (key : κ) : List (κ × α) → Option α
  | [] => none
  | (k, v) :: rest => if k = key then some v else get? key rest

/-- Writes a value: in place if the key is there, at the end otherwise. -/
def put (key : κ) (value : α) : List (κ × α) → List (κ × α)
  | [] => [(key, value)]
  | (k, v) :: rest => if k = key then (k, value) :: rest else (k, v) :: put key value rest

def erase (key : κ) (ledger : List (κ × α)) : List (κ × α) :=
  ledger.filter (fun entry => !decide (entry.1 = key))

def keys (ledger : List (κ × α)) : List κ := ledger.map Prod.fst

@[simp] theorem get?_put_self (key : κ) (value : α) (ledger : List (κ × α)) :
    get? key (put key value ledger) = some value := by
  induction ledger with
  | nil => simp [put, get?]
  | cons entry rest ih =>
    obtain ⟨k, v⟩ := entry
    by_cases h : k = key <;> simp [put, get?, h, ih]

@[simp] theorem get?_put_of_ne {key other : κ} (h : other ≠ key) (value : α)
    (ledger : List (κ × α)) :
    get? other (put key value ledger) = get? other ledger := by
  induction ledger with
  | nil => simp [put, get?, Ne.symm h]
  | cons entry rest ih =>
    obtain ⟨k, v⟩ := entry
    by_cases hk : k = key
    · subst hk
      simp [put, get?, Ne.symm h]
    · by_cases ho : k = other <;> simp_all [put, get?]

@[simp] theorem get?_erase_self (key : κ) (ledger : List (κ × α)) :
    get? key (erase key ledger) = none := by
  induction ledger with
  | nil => rfl
  | cons entry rest ih =>
    obtain ⟨k, v⟩ := entry
    by_cases h : k = key <;> simp_all [erase, get?]

@[simp] theorem get?_erase_of_ne {key other : κ} (h : other ≠ key) (ledger : List (κ × α)) :
    get? other (erase key ledger) = get? other ledger := by
  induction ledger with
  | nil => rfl
  | cons entry rest ih =>
    obtain ⟨k, v⟩ := entry
    by_cases hk : k = key
    · subst hk
      simp_all [erase, get?, Ne.symm h]
    · by_cases ho : k = other <;> simp_all [erase, get?]

end IngressControl.Ledger
