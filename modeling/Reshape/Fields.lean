/-!
Keyed entries in the order of their first insertion.
-/

namespace Reshape

/-- Entries of an object: a key written again keeps its place and takes the new entry. -/
abbrev Fields (α : Type) := List (String × α)

namespace Fields

variable {α : Type}

def get? (fields : Fields α) (key : String) : Option α :=
  fields.lookup key

def keys (fields : Fields α) : List String :=
  fields.map Prod.fst

def insert (key : String) (entry : α) : Fields α → Fields α
  | [] => [(key, entry)]
  | (other, old) :: rest =>
    if other = key then (key, entry) :: rest else (other, old) :: insert key entry rest

/-- The entries left when all are written in order. -/
def ofEntries (entries : List (String × α)) : Fields α :=
  entries.foldl (fun fields (key, entry) => fields.insert key entry) []

theorem get?_cons (key other : String) (entry : α) (rest : Fields α) :
    get? ((other, entry) :: rest) key = if key = other then some entry else get? rest key := by
  by_cases h : key = other
  · simp [get?, h]
  · simp [get?, List.lookup_cons, beq_false_of_ne h, h]

/-- The last entry written under a key is the one found there. -/
theorem get?_insert (key other : String) (entry : α) (fields : Fields α) :
    (fields.insert key entry).get? other =
      if other = key then some entry else fields.get? other := by
  induction fields with
  | nil => simp [insert, get?_cons]
  | cons head rest ih =>
    obtain ⟨name, old⟩ := head
    by_cases h : name = key
    · subst h
      by_cases ho : other = name <;> simp [insert, get?_cons, ho]
    · by_cases ho : other = name <;> simp [insert, get?_cons, h, ho, ih]

theorem insert_of_not_mem {key : String} {fields : Fields α} (hkey : key ∉ fields.keys)
    (entry : α) : fields.insert key entry = fields ++ [(key, entry)] := by
  induction fields with
  | nil => rfl
  | cons head rest ih =>
    obtain ⟨name, old⟩ := head
    rw [keys, List.map_cons, List.mem_cons, not_or] at hkey
    rw [insert, if_neg (Ne.symm hkey.1), ih hkey.2, List.cons_append]

/-- Writing an entry where it already is changes nothing. -/
theorem insert_of_get? {key : String} {entry : α} {fields : Fields α}
    (hget : fields.get? key = some entry) : fields.insert key entry = fields := by
  induction fields with
  | nil => cases hget
  | cons head rest ih =>
    obtain ⟨name, old⟩ := head
    rw [get?_cons] at hget
    by_cases h : key = name
    · rw [if_pos h] at hget
      rw [insert, if_pos h.symm, h, Option.some.inj hget]
    · rw [if_neg h] at hget
      rw [insert, if_neg (Ne.symm h), ih hget]

theorem insert_insert (key : String) (old new : α) (fields : Fields α) :
    (fields.insert key old).insert key new = fields.insert key new := by
  induction fields with
  | nil => simp [insert]
  | cons head rest ih =>
    by_cases h : head.1 = key <;> simp [insert, h, ih]

theorem keys_insert (key : String) (entry : α) (fields : Fields α) :
    (fields.insert key entry).keys =
      if key ∈ fields.keys then fields.keys else fields.keys ++ [key] := by
  induction fields with
  | nil => rfl
  | cons head rest ih =>
    obtain ⟨name, old⟩ := head
    by_cases h : name = key
    · simp [insert, keys, h]
    · by_cases hmem : key ∈ keys rest
      · rw [if_pos hmem] at ih
        simp_all [insert, keys]
      · rw [if_neg hmem] at ih
        simp_all [insert, keys, Ne.symm h]

end Fields

end Reshape
