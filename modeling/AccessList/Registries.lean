/-!
A registry keeps values under keys, in the order in which the keys first came. Writing under
a key that is present replaces its value in place. What is found under a key is the only
thing that matters of a registry, its size apart.
-/
namespace AccessList.Registries

variable {κ α : Type} [DecidableEq κ]

structure Registry (κ α : Type) where
  entries : List (κ × α)

def empty : Registry κ α := ⟨[]⟩

def find? : List (κ × α) → κ → Option α
  | [], _ => none
  | (k, a) :: rest, key => if k = key then some a else find? rest key

def write : List (κ × α) → κ → α → List (κ × α)
  | [], key, new => [(key, new)]
  | (k, a) :: rest, key, new =>
    if k = key then (k, new) :: rest else (k, a) :: write rest key new

namespace Registry

def get? (r : Registry κ α) (key : κ) : Option α := find? r.entries key

def insert (r : Registry κ α) (key : κ) (new : α) : Registry κ α :=
  ⟨write r.entries key new⟩

def erase (r : Registry κ α) (key : κ) : Registry κ α :=
  ⟨r.entries.filter fun e => e.1 ≠ key⟩

def keys (r : Registry κ α) : List κ := r.entries.map (·.1)

def values (r : Registry κ α) : List α := r.entries.map (·.2)

def size (r : Registry κ α) : Nat := r.entries.length

end Registry

theorem find?_write (es : List (κ × α)) (key : κ) (new : α) (other : κ) :
    find? (write es key new) other = if key = other then some new else find? es other := by
  induction es with
  | nil => simp [write, find?]
  | cons e rest ih =>
    obtain ⟨k, a⟩ := e
    by_cases hk : k = key
    · subst hk
      by_cases ho : k = other <;> simp [write, find?, ho]
    · by_cases ho : k = other
      · subst ho
        simp [write, find?, hk, Ne.symm hk]
      · simp [write, find?, hk, ho, ih]

theorem find?_filter_ne (es : List (κ × α)) (key other : κ) :
    find? (es.filter fun e => e.1 ≠ key) other =
      if key = other then none else find? es other := by
  induction es with
  | nil => simp [find?]
  | cons e rest ih =>
    obtain ⟨k, a⟩ := e
    by_cases hk : k = key
    · subst hk
      by_cases ho : k = other <;> simp [find?, ho] at ih ⊢ <;> exact ih
    · by_cases ho : k = other
      · subst ho
        simp [find?, hk, Ne.symm hk]
      · simpa [find?, hk, ho] using ih

theorem write_of_find? {es : List (κ × α)} {key : κ} {a : α} (h : find? es key = some a) :
    write es key a = es := by
  induction es with
  | nil => cases h
  | cons e rest ih =>
    obtain ⟨k, b⟩ := e
    by_cases hk : k = key
    · simp only [find?, hk, if_true, Option.some.injEq] at h
      simp [write, hk, h]
    · simp only [find?, hk, if_false] at h
      simp [write, hk, ih h]

theorem write_write (es : List (κ × α)) (key : κ) (old new : α) :
    write (write es key old) key new = write es key new := by
  induction es with
  | nil => simp [write]
  | cons e rest ih =>
    obtain ⟨k, b⟩ := e
    by_cases hk : k = key <;> simp [write, hk, ih]

theorem filter_ne_write {es : List (κ × α)} {key : κ} (new : α) (h : find? es key = none) :
    ((write es key new).filter fun e => e.1 ≠ key) = es := by
  induction es with
  | nil => simp [write]
  | cons e rest ih =>
    obtain ⟨k, b⟩ := e
    by_cases hk : k = key
    · simp [find?, hk] at h
    · simp only [find?, hk, if_false] at h
      simpa [write, hk] using ih h

theorem find?_eq_none_iff {es : List (κ × α)} {key : κ} :
    find? es key = none ↔ key ∉ es.map (·.1) := by
  induction es with
  | nil => simp [find?]
  | cons e rest ih =>
    obtain ⟨k, b⟩ := e
    by_cases hk : k = key
    · simp [find?, hk]
    · simp [find?, hk, Ne.symm hk, ih]

theorem mem_of_find? {es : List (κ × α)} {key : κ} {a : α} (h : find? es key = some a) :
    (key, a) ∈ es := by
  induction es with
  | nil => cases h
  | cons e rest ih =>
    obtain ⟨k, b⟩ := e
    by_cases hk : k = key
    · simp only [find?, hk, if_true, Option.some.injEq] at h
      simp [hk, h]
    · simp only [find?, hk, if_false] at h
      exact List.mem_cons_of_mem _ (ih h)

theorem keys_write_of_none {es : List (κ × α)} {key : κ} (new : α) (h : find? es key = none) :
    (write es key new).map (·.1) = es.map (·.1) ++ [key] := by
  induction es with
  | nil => rfl
  | cons e rest ih =>
    obtain ⟨k, b⟩ := e
    by_cases hk : k = key
    · simp [find?, hk] at h
    · simp only [find?, hk, if_false] at h
      simp [write, hk, ih h]

theorem keys_write_of_some {es : List (κ × α)} {key : κ} {a : α} (new : α)
    (h : find? es key = some a) : (write es key new).map (·.1) = es.map (·.1) := by
  induction es with
  | nil => cases h
  | cons e rest ih =>
    obtain ⟨k, b⟩ := e
    by_cases hk : k = key
    · simp [write, hk]
    · simp only [find?, hk, if_false] at h
      simp [write, hk, ih h]

theorem find?_of_mem {es : List (κ × α)} {key : κ} {a : α} (hnodup : (es.map (·.1)).Nodup)
    (h : (key, a) ∈ es) : find? es key = some a := by
  induction es with
  | nil => cases h
  | cons e rest ih =>
    obtain ⟨k, b⟩ := e
    rw [List.map_cons, List.nodup_cons] at hnodup
    rcases List.mem_cons.mp h with hfirst | hrest
    · cases hfirst
      simp [find?]
    · have hne : k ≠ key := by
        rintro rfl
        exact hnodup.1 (List.mem_map_of_mem (f := (·.1)) hrest)
      simp [find?, hne, ih hnodup.2 hrest]

namespace Registry

@[simp] theorem get?_empty (key : κ) : (empty : Registry κ α).get? key = none := rfl

theorem get?_insert (r : Registry κ α) (key : κ) (new : α) (other : κ) :
    (r.insert key new).get? other = if key = other then some new else r.get? other :=
  find?_write r.entries key new other

theorem get?_erase (r : Registry κ α) (key other : κ) :
    (r.erase key).get? other = if key = other then none else r.get? other :=
  find?_filter_ne r.entries key other

theorem insert_of_get? {r : Registry κ α} {key : κ} {a : α} (h : r.get? key = some a) :
    r.insert key a = r :=
  congrArg Registry.mk (write_of_find? h)

theorem insert_insert (r : Registry κ α) (key : κ) (old new : α) :
    (r.insert key old).insert key new = r.insert key new :=
  congrArg Registry.mk (write_write r.entries key old new)

/-- Erasing under a key that was free before undoes writing under it. -/
theorem erase_insert {r : Registry κ α} {key : κ} (new : α) (h : r.get? key = none) :
    (r.insert key new).erase key = r :=
  congrArg Registry.mk (filter_ne_write new h)

theorem get?_eq_none_iff {r : Registry κ α} {key : κ} : r.get? key = none ↔ key ∉ r.keys :=
  find?_eq_none_iff

theorem mem_values_of_get? {r : Registry κ α} {key : κ} {a : α} (h : r.get? key = some a) :
    a ∈ r.values :=
  List.mem_map_of_mem (f := (·.2)) (mem_of_find? h)

theorem get?_of_mem_values {r : Registry κ α} {a : α} (hnodup : r.keys.Nodup)
    (h : a ∈ r.values) : ∃ key, r.get? key = some a := by
  obtain ⟨⟨key, b⟩, hmem, rfl⟩ := List.mem_map.mp h
  exact ⟨key, find?_of_mem hnodup hmem⟩

theorem keys_insert_of_free {r : Registry κ α} {key : κ} (new : α) (h : r.get? key = none) :
    (r.insert key new).keys = r.keys ++ [key] :=
  keys_write_of_none new h

theorem keys_insert_of_get? {r : Registry κ α} {key : κ} {a : α} (new : α)
    (h : r.get? key = some a) : (r.insert key new).keys = r.keys :=
  keys_write_of_some new h

theorem keys_erase (r : Registry κ α) (key : κ) :
    (r.erase key).keys = r.keys.filter fun k => k ≠ key := by
  simp only [erase, keys, List.filter_map]
  rfl

omit [DecidableEq κ] in
theorem length_keys (r : Registry κ α) : r.keys.length = r.size :=
  List.length_map _

theorem size_insert_of_free {r : Registry κ α} {key : κ} (new : α) (h : r.get? key = none) :
    (r.insert key new).size = r.size + 1 := by
  rw [← length_keys, ← length_keys, keys_insert_of_free new h, List.length_append,
    List.length_singleton]

theorem size_insert_of_get? {r : Registry κ α} {key : κ} {a : α} (new : α)
    (h : r.get? key = some a) : (r.insert key new).size = r.size := by
  rw [← length_keys, ← length_keys, keys_insert_of_get? new h]

theorem size_erase_of_get? {r : Registry κ α} {key : κ} {a : α} (hnodup : r.keys.Nodup)
    (h : r.get? key = some a) : (r.erase key).size + 1 = r.size := by
  have hmem : key ∈ r.keys := List.mem_map_of_mem (f := (·.1)) (mem_of_find? h)
  have hkeys : (r.erase key).keys = r.keys.erase key := by
    rw [keys_erase, hnodup.erase_eq_filter]
    congr 1
    funext k
    by_cases hk : k = key <;> simp [hk]
  have hlength := List.length_erase_of_mem hmem
  have hpos : 0 < r.keys.length := List.length_pos_of_mem hmem
  rw [← length_keys, ← length_keys, hkeys]
  omega

end Registry

end AccessList.Registries
