import Reshape.Value

/-!
# Values as trees

Induction over the tree of a value, the nodes that occur in it, and what lists made child by child
hold.
-/

namespace Reshape.Value

/-- A property of all values follows from its being passed on by the items of an array and by the
members of an object. -/
@[induction_eliminator]
theorem induction {motive : Value → Prop} (null : motive .null) (bool : ∀ flag, motive (.bool flag))
    (number : ∀ n, motive (.number n)) (string : ∀ text, motive (.string text))
    (array : ∀ items, (∀ item ∈ items, motive item) → motive (.array items))
    (object : ∀ fields, (∀ field ∈ fields, motive field.2) → motive (.object fields))
    (value : Value) : motive value := by
  refine @Value.rec motive (fun items => ∀ item ∈ items, motive item)
    (fun fields => ∀ field ∈ fields, motive field.2) (fun field => motive field.2)
    null bool number string array object ?_ ?_ ?_ ?_ ?_ value
  · intro item hitem
    cases hitem
  · intro head rest hhead hrest
    exact List.forall_mem_cons.mpr ⟨hhead, hrest⟩
  · intro field hfield
    cases hfield
  · intro head rest hhead hrest
    exact List.forall_mem_cons.mpr ⟨hhead, hrest⟩
  · intro key value hvalue
    exact hvalue

/-- A value is a node of another one: the whole, or a node of an item or of a member. -/
inductive Occurs (node : Value) : Value → Prop
  | here : Occurs node node
  | item {item : Value} {items : List Value} (hmem : item ∈ items) (hitem : Occurs node item) :
      Occurs node (.array items)
  | member {field : String × Value} {fields : Fields Value} (hmem : field ∈ fields)
      (hfield : Occurs node field.2) : Occurs node (.object fields)

variable {node : Value}

@[simp] theorem occurs_null_iff : Occurs node .null ↔ node = .null := by
  constructor
  · rintro ⟨⟩
    rfl
  · rintro rfl
    exact .here

@[simp] theorem occurs_bool_iff {flag : Bool} : Occurs node (.bool flag) ↔ node = .bool flag := by
  constructor
  · rintro ⟨⟩
    rfl
  · rintro rfl
    exact .here

@[simp] theorem occurs_number_iff {n : Number} : Occurs node (.number n) ↔ node = .number n := by
  constructor
  · rintro ⟨⟩
    rfl
  · rintro rfl
    exact .here

@[simp] theorem occurs_string_iff {text : String} :
    Occurs node (.string text) ↔ node = .string text := by
  constructor
  · rintro ⟨⟩
    rfl
  · rintro rfl
    exact .here

@[simp] theorem occurs_array_iff {items : List Value} :
    Occurs node (.array items) ↔ node = .array items ∨ ∃ item ∈ items, Occurs node item := by
  constructor
  · intro hnode
    cases hnode with
    | here => exact Or.inl rfl
    | item hmem hnode => exact Or.inr ⟨_, hmem, hnode⟩
  · rintro (rfl | ⟨item, hmem, hnode⟩)
    · exact .here
    · exact .item hmem hnode

@[simp] theorem occurs_object_iff {fields : Fields Value} :
    Occurs node (.object fields) ↔ node = .object fields ∨ ∃ field ∈ fields, Occurs node field.2 := by
  constructor
  · intro hnode
    cases hnode with
    | here => exact Or.inl rfl
    | member hmem hnode => exact Or.inr ⟨_, hmem, hnode⟩
  · rintro (rfl | ⟨field, hmem, hnode⟩)
    · exact .here
    · exact .member hmem hnode

def HasDistinctKeys (value : Value) : Prop :=
  ∀ fields, Occurs (.object fields) value → (Fields.keys fields).Nodup

theorem HasDistinctKeys.item {items : List Value} (hkeys : (Value.array items).HasDistinctKeys)
    {item : Value} (hmem : item ∈ items) : item.HasDistinctKeys :=
  fun fields hnode => hkeys fields (.item hmem hnode)

theorem HasDistinctKeys.member {fields : Fields Value} (hkeys : (Value.object fields).HasDistinctKeys)
    {field : String × Value} (hmem : field ∈ fields) : field.2.HasDistinctKeys :=
  fun others hnode => hkeys others (.member hmem hnode)

/-! ### Children listed with their places -/

section Places

variable {α β : Type}

theorem mem_flatMap_zipIdx_iff {items : List α} {f : α × Nat → List β} {b : β} :
    b ∈ items.zipIdx.flatMap f ↔
      ∃ (index : Nat) (item : α), items[index]? = some item ∧ b ∈ f (item, index) := by
  rw [List.mem_flatMap]
  constructor
  · rintro ⟨⟨item, index⟩, hitem, hmem⟩
    exact ⟨index, item, List.mk_mem_zipIdx_iff_getElem?.mp hitem, hmem⟩
  · rintro ⟨index, item, hitem, hmem⟩
    exact ⟨(item, index), List.mk_mem_zipIdx_iff_getElem?.mpr hitem, hmem⟩

theorem mem_map_cons_iff {part : α} {place : List α} {b : β} {placed : List (List α × β)} :
    (place, b) ∈ placed.map (fun inner => (part :: inner.1, inner.2)) ↔
      ∃ inner, place = part :: inner ∧ (inner, b) ∈ placed := by
  rw [List.mem_map]
  constructor
  · rintro ⟨⟨inner, _⟩, hinner, ⟨⟩⟩
    exact ⟨inner, rfl, hinner⟩
  · rintro ⟨inner, rfl, hinner⟩
    exact ⟨(inner, b), hinner, rfl⟩

end Places

end Reshape.Value
