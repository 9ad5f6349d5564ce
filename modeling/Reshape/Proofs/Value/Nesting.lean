import Reshape.Proofs.Value.Tree

/-!
# How deep containers nest

The nesting of a value counts the containers on the longest way down to a node: a container holds
its items or members one level deeper than it stands itself.
-/

namespace Reshape.Value

mutual

def nesting : Value → Nat
  | .array items => itemsNesting items + 1
  | .object fields => fieldsNesting fields + 1
  | _ => 0

def itemsNesting : List Value → Nat
  | [] => 0
  | item :: rest => max item.nesting (itemsNesting rest)

def fieldsNesting : List (String × Value) → Nat
  | [] => 0
  | (_, entry) :: rest => max entry.nesting (fieldsNesting rest)

end

theorem itemsNesting_le_iff {items : List Value} {bound : Nat} :
    itemsNesting items ≤ bound ↔ ∀ item ∈ items, item.nesting ≤ bound := by
  induction items with
  | nil => simp [itemsNesting]
  | cons item rest ih => rw [itemsNesting, Nat.max_le, ih, List.forall_mem_cons]

theorem fieldsNesting_le_iff {fields : List (String × Value)} {bound : Nat} :
    fieldsNesting fields ≤ bound ↔ ∀ field ∈ fields, field.2.nesting ≤ bound := by
  induction fields with
  | nil => simp [fieldsNesting]
  | cons field rest ih => rw [fieldsNesting, Nat.max_le, ih, List.forall_mem_cons]

theorem nesting_array_le_succ_iff {items : List Value} {bound : Nat} :
    (Value.array items).nesting ≤ bound + 1 ↔ ∀ item ∈ items, item.nesting ≤ bound := by
  rw [nesting, Nat.add_le_add_iff_right, itemsNesting_le_iff]

theorem nesting_object_le_succ_iff {fields : List (String × Value)} {bound : Nat} :
    (Value.object fields).nesting ≤ bound + 1 ↔ ∀ field ∈ fields, field.2.nesting ≤ bound := by
  rw [nesting, Nat.add_le_add_iff_right, fieldsNesting_le_iff]

end Reshape.Value
