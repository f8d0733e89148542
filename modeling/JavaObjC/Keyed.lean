/-!
# Tables with keys

A table is a list of keys with their values. Setting a key keeps its place, or
adds it at the end, so a table remembers the order in which its keys came.
-/

namespace JavaObjC

variable {κ α : Type} [DecidableEq κ]

/-- A table with the value of a key replaced, or added at the end. -/
def setKey (key : κ) (value : α) : List (κ × α) → List (κ × α)
  | [] => [(key, value)]
  | (k, old) :: rest => if k = key then (k, value) :: rest else (k, old) :: setKey key value rest

/-- The value of a key in a table. -/
def getKey? (key : κ) : List (κ × α) → Option α
  | [] => none
  | (k, value) :: rest => if k = key then some value else getKey? key rest

/-- A table without a key. -/
def dropKey (key : κ) (entries : List (κ × α)) : List (κ × α) :=
  entries.filter (·.1 ≠ key)

/-- A value that is found in a table is there with its key. -/
theorem mem_of_getKey? {key : κ} {value : α} {entries : List (κ × α)}
    (h : getKey? key entries = some value) : (key, value) ∈ entries := by
  induction entries with
  | nil => cases h
  | cons entry rest ih =>
    rw [getKey?] at h
    split at h
    · next hkey =>
      obtain rfl := Option.some.inj h
      exact hkey ▸ List.mem_cons_self
    · exact List.mem_cons_of_mem entry (ih h)

/-- After a key was set, it has the new value. -/
theorem getKey?_setKey_self (key : κ) (value : α) (entries : List (κ × α)) :
    getKey? key (setKey key value entries) = some value := by
  induction entries with
  | nil => simp [setKey, getKey?]
  | cons entry rest ih =>
    by_cases h : entry.1 = key <;> simp [setKey, getKey?, h, ih]

/-- Setting a key leaves the values of the other keys alone. -/
theorem getKey?_setKey_of_ne {key other : κ} (h : other ≠ key) (value : α)
    (entries : List (κ × α)) :
    getKey? other (setKey key value entries) = getKey? other entries := by
  induction entries with
  | nil => simp [setKey, getKey?, Ne.symm h]
  | cons entry rest ih =>
    by_cases hk : entry.1 = key
    · simp [setKey, getKey?, hk, Ne.symm h]
    · simp [setKey, getKey?, hk, ih]

/-- A dropped key has no value. -/
theorem getKey?_dropKey_self (key : κ) (entries : List (κ × α)) :
    getKey? key (dropKey key entries) = none := by
  induction entries with
  | nil => rfl
  | cons entry rest ih =>
    by_cases hk : entry.1 = key
    · simpa [dropKey, hk] using ih
    · have : dropKey key (entry :: rest) = entry :: dropKey key rest := by simp [dropKey, hk]
      simp [this, getKey?, hk, ih]

/-- Dropping a key leaves the values of the other keys alone. -/
theorem getKey?_dropKey_of_ne {key other : κ} (h : other ≠ key) (entries : List (κ × α)) :
    getKey? other (dropKey key entries) = getKey? other entries := by
  induction entries with
  | nil => rfl
  | cons entry rest ih =>
    by_cases hk : entry.1 = key
    · have : dropKey key (entry :: rest) = dropKey key rest := by simp [dropKey, hk]
      simp [this, getKey?, hk, ih, Ne.symm h]
    · have : dropKey key (entry :: rest) = entry :: dropKey key rest := by simp [dropKey, hk]
      simp [this, getKey?, ih]

end JavaObjC
