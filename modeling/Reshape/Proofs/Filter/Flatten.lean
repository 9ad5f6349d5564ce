import Mathlib.Logic.Function.Iterate
import Reshape.Filter.Collection
import Reshape.Proofs.Sort.Merge
import Reshape.Proofs.Value.Tree

/-!
# Flattening

Flattened deeply, a collection is the list of its leaves: what stands at the places where no array
stands, in the order of the places. To spread the arrays of a list one level changes none of its
leaves and takes one level off its depth, so that spreading is over exactly when the depth is.
-/

namespace Reshape

namespace Value

def isArray : Value → Bool
  | .array _ => true
  | _ => false

/-- What stands at a place, the indices of nested arrays on the way down to it. -/
def itemAt? (value : Value) : List Nat → Option Value
  | [] => some value
  | index :: rest => match value with
    | .array items => items[index]?.bind fun item => item.itemAt? rest
    | _ => none

/-- The items are all that stands in the arrays of a value and is no array, in the order of the
places. -/
def ListsLeaves (value : Value) (items : List Value) : Prop :=
  ∃ placed : List (List Nat × Value), items = placed.map Prod.snd ∧
    placed.Pairwise (fun first second => first.1 < second.1) ∧
    ∀ place leaf, (place, leaf) ∈ placed ↔ value.itemAt? place = some leaf ∧ leaf.isArray = false

mutual

/-- How deep arrays stand in arrays; what is no array has no depth, whatever it holds. -/
def arrayDepth : Value → Nat
  | .array items => itemsDepth items + 1
  | _ => 0

def itemsDepth : List Value → Nat
  | [] => 0
  | item :: rest => max item.arrayDepth (itemsDepth rest)

end

/-- A leaf of an item, as a leaf of the array. -/
def within (index : Nat) (placed : List Nat × Value) : List Nat × Value :=
  (index :: placed.1, placed.2)

mutual

/-- The leaves, each with its place. -/
def placedLeaves (value : Value) : List (List Nat × Value) :=
  match value with
  | .array items => itemsPlacedLeaves 0 items
  | other => [([], other)]

/-- The leaves of an array's items from an index on. -/
def itemsPlacedLeaves (index : Nat) : List Value → List (List Nat × Value)
  | [] => []
  | item :: rest => item.placedLeaves.map (within index) ++ itemsPlacedLeaves (index + 1) rest

end

variable {value leaf : Value} {items : List Value} {place : List Nat} {bound : Nat}

theorem itemsDepth_le_iff : itemsDepth items ≤ bound ↔ ∀ item ∈ items, item.arrayDepth ≤ bound := by
  induction items with
  | nil => simp [itemsDepth]
  | cons item rest ih => rw [itemsDepth, Nat.max_le, ih, List.forall_mem_cons]

theorem arrayDepth_le_zero_iff : value.arrayDepth ≤ 0 ↔ value.isArray = false := by
  cases value <;> simp [arrayDepth, isArray]

/-- A text and what is no collection have no arrays among their elements. -/
theorem arrayDepth_le_succ_iff :
    value.arrayDepth ≤ bound + 1 ↔ itemsDepth value.elements ≤ bound := by
  rw [itemsDepth_le_iff]
  cases value with
  | array items => simp [arrayDepth, itemsDepth_le_iff, elements]
  | string text => simp [arrayDepth, elements]
  | _ => simp [arrayDepth, elements]

/-! ### Leaves at their places -/

theorem itemsPlacedLeaves_eq_flatMap (index : Nat) (items : List Value) :
    itemsPlacedLeaves index items =
      (items.zipIdx index).flatMap fun item => item.1.placedLeaves.map (within item.2) := by
  induction items generalizing index with
  | nil => rfl
  | cons item rest ih => rw [itemsPlacedLeaves, ih, List.zipIdx_cons, List.flatMap_cons]

theorem placedLeaves_array (items : List Value) :
    (Value.array items).placedLeaves =
      items.zipIdx.flatMap fun item => item.1.placedLeaves.map (within item.2) := by
  rw [placedLeaves, itemsPlacedLeaves_eq_flatMap]

theorem mem_placedLeaves_array_iff :
    (place, leaf) ∈ (Value.array items).placedLeaves ↔
      ∃ (index : Nat) (inner : List Nat) (item : Value), items[index]? = some item ∧
        place = index :: inner ∧ (inner, leaf) ∈ item.placedLeaves := by
  rw [placedLeaves_array, mem_flatMap_zipIdx_iff]
  constructor
  · rintro ⟨index, item, hitem, hmem⟩
    obtain ⟨inner, rfl, hinner⟩ := mem_map_cons_iff.mp hmem
    exact ⟨index, inner, item, hitem, rfl, hinner⟩
  · rintro ⟨index, inner, item, hitem, hplace, hinner⟩
    exact ⟨index, item, hitem, mem_map_cons_iff.mpr ⟨inner, hplace, hinner⟩⟩

theorem mem_placedLeaves_iff :
    (place, leaf) ∈ value.placedLeaves ↔
      value.itemAt? place = some leaf ∧ leaf.isArray = false := by
  induction value generalizing place with
  | array items ih =>
      rw [mem_placedLeaves_array_iff]
      constructor
      · rintro ⟨index, inner, item, hitem, rfl, hinner⟩
        rw [ih item (List.mem_of_getElem? hitem)] at hinner
        rw [itemAt?, hitem]
        exact hinner
      · rintro ⟨hplace, hleaf⟩
        cases place with
        | nil =>
            obtain rfl := Option.some.inj hplace
            cases hleaf
        | cons index inner =>
            obtain ⟨item, hitem, hinner⟩ := Option.bind_eq_some_iff.mp hplace
            refine ⟨index, inner, item, hitem, rfl, ?_⟩
            rw [ih item (List.mem_of_getElem? hitem)]
            exact ⟨hinner, hleaf⟩
  | _ =>
      refine Iff.trans List.mem_singleton ?_
      cases place with
      | nil =>
          rw [itemAt?, Option.some.injEq, Prod.mk.injEq]
          constructor
          · rintro ⟨-, rfl⟩
            exact ⟨rfl, rfl⟩
          · rintro ⟨rfl, -⟩
            exact ⟨rfl, rfl⟩
      | cons index inner => simp [itemAt?]

theorem pairwise_placedLeaves (value : Value) :
    value.placedLeaves.Pairwise fun first second => first.1 < second.1 := by
  induction value with
  | array items ih =>
      rw [placedLeaves_array, List.pairwise_flatMap]
      constructor
      · rintro ⟨item, index⟩ hitem
        have hinner := ih item (List.mem_of_getElem? (List.mk_mem_zipIdx_iff_getElem?.mp hitem))
        exact List.pairwise_map.mpr (hinner.imp fun hlt => List.cons_lt_cons_self.mpr hlt)
      · apply (pairwise_zipIdx items 0).imp
        rintro ⟨item, index⟩ ⟨other, later⟩ hlt first hfirst second hsecond
        obtain ⟨inner, -, rfl⟩ := List.mem_map.mp hfirst
        obtain ⟨outer, -, rfl⟩ := List.mem_map.mp hsecond
        exact List.cons_lt_cons_iff.mpr (Or.inl hlt)
  | _ => exact List.pairwise_singleton _ _

end Value

namespace Filter

open Value

/-- All items with each array among them opened. -/
def spreadAll (items : List Value) : List Value :=
  items.flatMap spread

variable {value item : Value} {items : List Value} {bound : Nat}

/-! ### Leaves without their places -/

theorem leavesOf_eq_flatMap (items : List Value) : leavesOf items = items.flatMap leaves := by
  induction items with
  | nil => rfl
  | cons item rest ih => rw [leavesOf, ih, List.flatMap_cons]

theorem leaves_array (items : List Value) : leaves (.array items) = items.flatMap leaves := by
  rw [leaves, leavesOf_eq_flatMap]

theorem leaves_of_isArray_eq_false (hitem : item.isArray = false) : leaves item = [item] := by
  cases item with
  | array items => cases hitem
  | _ => rfl

theorem isArray_of_mem_leaves (hmem : item ∈ leaves value) : item.isArray = false := by
  induction value with
  | array items ih =>
      rw [leaves_array] at hmem
      obtain ⟨inner, hinner, hleaf⟩ := List.mem_flatMap.mp hmem
      exact ih inner hinner hleaf
  | _ =>
      rw [List.mem_singleton.mp hmem]
      rfl

theorem flatMap_leaves_of_flat (hflat : ∀ item ∈ items, item.isArray = false) :
    items.flatMap leaves = items := by
  induction items with
  | nil => rfl
  | cons item rest ih =>
      rw [List.forall_mem_cons] at hflat
      rw [List.flatMap_cons, leaves_of_isArray_eq_false hflat.1, ih hflat.2, List.singleton_append]

theorem flatMap_leaves_eq_map_itemsPlacedLeaves
    (hitems : ∀ item ∈ items, leaves item = item.placedLeaves.map Prod.snd) (index : Nat) :
    items.flatMap leaves = (itemsPlacedLeaves index items).map Prod.snd := by
  induction items generalizing index with
  | nil => rfl
  | cons item rest ih =>
      rw [List.forall_mem_cons] at hitems
      have hplaces : (item.placedLeaves.map (within index)).map Prod.snd =
          item.placedLeaves.map Prod.snd := List.map_map
      rw [List.flatMap_cons, itemsPlacedLeaves, List.map_append, hplaces, hitems.1,
        ih hitems.2 (index + 1)]

theorem leaves_eq_map_placedLeaves (value : Value) :
    leaves value = value.placedLeaves.map Prod.snd := by
  induction value with
  | array items ih =>
      rw [leaves_array, placedLeaves]
      exact flatMap_leaves_eq_map_itemsPlacedLeaves ih 0
  | _ => rfl

theorem listsLeaves_leaves (value : Value) : value.ListsLeaves (leaves value) :=
  ⟨value.placedLeaves, leaves_eq_map_placedLeaves value, pairwise_placedLeaves value,
    fun _ _ => mem_placedLeaves_iff⟩

/-! ### Spreading again and again -/

theorem flatMap_leaves_spread (item : Value) : (spread item).flatMap leaves = leaves item := by
  cases item with
  | array items => exact (leaves_array items).symm
  | _ => rfl

theorem flatMap_leaves_spreadAll (items : List Value) :
    (spreadAll items).flatMap leaves = items.flatMap leaves := by
  rw [spreadAll, List.flatMap_assoc]
  simp only [flatMap_leaves_spread]

theorem forall_mem_spread_iff :
    (∀ inner ∈ spread item, inner.arrayDepth ≤ bound) ↔ item.arrayDepth ≤ bound + 1 := by
  cases item with
  | array items => rw [arrayDepth, Nat.add_le_add_iff_right, itemsDepth_le_iff, spread]
  | _ => simp [spread, arrayDepth]

theorem itemsDepth_spreadAll_le_iff :
    itemsDepth (spreadAll items) ≤ bound ↔ itemsDepth items ≤ bound + 1 := by
  simp only [spreadAll, itemsDepth_le_iff, List.forall_mem_flatMap, forall_mem_spread_iff]

/-- Spread a number of times, a list comes to its leaves exactly when its arrays are no deeper. -/
theorem iterate_spreadAll_eq_iff (times : Nat) :
    spreadAll^[times] items = items.flatMap leaves ↔ itemsDepth items ≤ times := by
  induction times generalizing items with
  | zero =>
      simp only [Function.iterate_zero, id, itemsDepth_le_iff, arrayDepth_le_zero_iff]
      constructor
      · intro heq item hmem
        rw [heq] at hmem
        obtain ⟨inner, -, hleaf⟩ := List.mem_flatMap.mp hmem
        exact isArray_of_mem_leaves hleaf
      · intro hflat
        exact (flatMap_leaves_of_flat hflat).symm
  | succ times ih =>
      rw [Function.iterate_succ_apply, ← flatMap_leaves_spreadAll, ih,
        itemsDepth_spreadAll_le_iff]

/-! ### The filter -/

/-- A filter's work done again and again on what it gives. -/
def repeated (work : Value → Outcome) : Nat → Value → Outcome
  | 0, value => .ok value
  | times + 1, value => do repeated work times (← work value)

section Flags

variable {deep shallow : List Arg}

theorem flatten_of_flag {args : List Arg} {deep : Bool} (hflag : flag args 0 false = .ok deep)
    (input source : Value) :
    flatten input source args =
      .ok (.array (input.elements.flatMap (if deep then leaves else spread))) := by
  rw [flatten, hflag]
  rfl

theorem flatten_deep (hdeep : flag deep 0 false = .ok true) (input source : Value) :
    flatten input source deep = .ok (.array (input.elements.flatMap leaves)) :=
  flatten_of_flag hdeep input source

theorem flatten_shallow (hshallow : flag shallow 0 false = .ok false) (input source : Value) :
    flatten input source shallow = .ok (.array (spreadAll input.elements)) :=
  flatten_of_flag hshallow input source

theorem repeated_flatten_array (hshallow : flag shallow 0 false = .ok false) (source : Value)
    (times : Nat) (items : List Value) :
    repeated (fun value => flatten value source shallow) times (.array items) =
      .ok (.array (spreadAll^[times] items)) := by
  induction times generalizing items with
  | zero => rfl
  | succ times ih =>
      rw [repeated, flatten_shallow hshallow, Function.iterate_succ_apply]
      exact ih (spreadAll items)

/-- The first time takes the elements, and from then on there is an array. -/
theorem repeated_flatten_succ (hshallow : flag shallow 0 false = .ok false) (input source : Value)
    (times : Nat) :
    repeated (fun value => flatten value source shallow) (times + 1) input =
      .ok (.array (spreadAll^[times + 1] input.elements)) := by
  rw [repeated, flatten_shallow hshallow, Function.iterate_succ_apply]
  exact repeated_flatten_array hshallow source times (spreadAll input.elements)

/-- **To flatten deeply is to flatten until no array is left.** The leaves come out, each once and in
the order of their places, with objects whole, and flattening once before or deeply again changes
nothing about that. A number of shallow flattenings comes to the same exactly when one less than the
depth of the arrays is no more than it. -/
theorem flatten_deep_limit (hdeep : flag deep 0 false = .ok true)
    (hshallow : flag shallow 0 false = .ok false) (input source : Value) :
    (∃ items, flatten input source deep = .ok (.array items) ∧
      (Value.array input.elements).ListsLeaves items ∧ ∀ item ∈ items, item.isArray = false) ∧
    (flatten input source shallow >>= fun once => flatten once source deep) =
      flatten input source deep ∧
    (flatten input source deep >>= fun flat => flatten flat source deep) =
      flatten input source deep ∧
    ∀ times, times ≠ 0 →
      (repeated (fun value => flatten value source shallow) times input =
          flatten input source deep ↔
        input.arrayDepth ≤ times + 1) := by
  have hleaves := listsLeaves_leaves (.array input.elements)
  rw [leaves_array] at hleaves
  have hflat : ∀ item ∈ input.elements.flatMap leaves, item.isArray = false := by
    intro item hmem
    obtain ⟨element, -, hleaf⟩ := List.mem_flatMap.mp hmem
    exact isArray_of_mem_leaves hleaf
  refine ⟨⟨_, flatten_deep hdeep input source, hleaves, hflat⟩, ?_, ?_, ?_⟩
  · rw [flatten_shallow hshallow, flatten_deep hdeep, ← flatMap_leaves_spreadAll]
    exact flatten_deep hdeep _ source
  · rw [flatten_deep hdeep]
    refine (flatten_deep hdeep _ source).trans ?_
    rw [Value.elements, flatMap_leaves_of_flat hflat]
  · intro times htimes
    obtain ⟨times, rfl⟩ := Nat.exists_eq_succ_of_ne_zero htimes
    rw [repeated_flatten_succ hshallow, flatten_deep hdeep, Except.ok.injEq, Value.array.injEq,
      iterate_spreadAll_eq_iff, arrayDepth_le_succ_iff]

/-- Arrays three deep, with one inside an object that is no part of the depth: flattened shallowly
twice they are flat, and once they are not. -/
theorem flatten_deep_limit_whole_object :
    let kept : Value := .object [("k", .array [.array [.null]])]
    let input : Value := .array [.array [], .array [.string "x", .array [kept]]]
    let deep : List Arg := [.value (.bool true)]
    let shallow : List Arg := [.ofText " false"]
    let spreading := repeated fun value => flatten value .null shallow
    flag deep 0 false = .ok true ∧ flag shallow 0 false = .ok false ∧
      (∃ items, flatten input .null deep = .ok (.array items) ∧ input.ListsLeaves items) ∧
      flatten input .null deep = .ok (.array [.string "x", kept]) ∧
      spreading 2 input = flatten input .null deep ∧
      spreading 1 input ≠ flatten input .null deep := by
  intro kept input deep shallow spreading
  have hdeep : flag deep 0 false = .ok true := rfl
  have hshallow : flag shallow 0 false = .ok false := rfl
  obtain ⟨⟨items, hitems, hleaves, -⟩, -, -, htimes⟩ :=
    flatten_deep_limit hdeep hshallow input .null
  have hdepth : input.arrayDepth = 3 := rfl
  refine ⟨hdeep, hshallow, ⟨items, hitems, hleaves⟩, rfl, ?_, ?_⟩
  · exact (htimes 2 (by decide)).mpr (Nat.le_of_eq hdepth)
  · intro heq
    have hle := (htimes 1 (by decide)).mp heq
    omega

end Flags

end Filter

end Reshape
