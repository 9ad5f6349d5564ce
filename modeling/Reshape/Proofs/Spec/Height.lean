import Reshape.Spec

/-!
# Mappings as trees

Induction over the tree of a mapping, the nodes that occur in it, and its height: one for a leaf and
for an empty container, and one more than the highest child for every other node.
-/

namespace Reshape.Spec

/-- A property of all mappings follows from its being passed on by the steps of a sequence and by
the entries of an object. -/
@[induction_eliminator]
theorem induction {motive : Spec → Prop}
    (filter : ∀ token, motive (.filter token))
    (sequence : ∀ steps, (∀ step ∈ steps, motive step) → motive (.sequence steps))
    (fields : ∀ entries, (∀ entry ∈ entries, motive entry.2) → motive (.fields entries))
    (literal : ∀ value, motive (.literal value)) (spec : Spec) : motive spec := by
  refine @Spec.rec motive (fun steps => ∀ step ∈ steps, motive step)
    (fun entries => ∀ entry ∈ entries, motive entry.2) (fun entry => motive entry.2)
    filter sequence fields literal ?_ ?_ ?_ ?_ ?_ spec
  · intro step hstep
    cases hstep
  · intro head rest hhead hrest step hstep
    rcases List.mem_cons.mp hstep with rfl | hmem
    · exact hhead
    · exact hrest step hmem
  · intro entry hentry
    cases hentry
  · intro head rest hhead hrest entry hentry
    rcases List.mem_cons.mp hentry with rfl | hmem
    · exact hhead
    · exact hrest entry hmem
  · intro key spec hspec
    exact hspec

/-- A mapping is a node of another one: the whole, or a node of a step or of an entry. -/
inductive Occurs (node : Spec) : Spec → Prop
  | here : Occurs node node
  | step {step : Spec} {steps : List Spec} (hmem : step ∈ steps) (hstep : Occurs node step) :
      Occurs node (.sequence steps)
  | entry {entry : String × Spec} {entries : List (String × Spec)} (hmem : entry ∈ entries)
      (hentry : Occurs node entry.2) : Occurs node (.fields entries)

section Occurs

variable {node : Spec}

@[simp] theorem occurs_filter_iff {token : Token} :
    Occurs node (.filter token) ↔ node = .filter token := by
  constructor
  · rintro ⟨⟩
    rfl
  · rintro rfl
    exact .here

@[simp] theorem occurs_sequence_iff {steps : List Spec} :
    Occurs node (.sequence steps) ↔ node = .sequence steps ∨ ∃ step ∈ steps, Occurs node step := by
  constructor
  · intro hnode
    cases hnode with
    | here => exact Or.inl rfl
    | step hmem hnode => exact Or.inr ⟨_, hmem, hnode⟩
  · rintro (rfl | ⟨step, hmem, hnode⟩)
    · exact .here
    · exact .step hmem hnode

@[simp] theorem occurs_fields_iff {entries : List (String × Spec)} :
    Occurs node (.fields entries) ↔
      node = .fields entries ∨ ∃ entry ∈ entries, Occurs node entry.2 := by
  constructor
  · intro hnode
    cases hnode with
    | here => exact Or.inl rfl
    | entry hmem hnode => exact Or.inr ⟨_, hmem, hnode⟩
  · rintro (rfl | ⟨entry, hmem, hnode⟩)
    · exact .here
    · exact .entry hmem hnode

end Occurs

mutual

def height : Spec → Nat
  | .filter _ => 1
  | .sequence steps => stepsHeight steps + 1
  | .fields entries => entriesHeight entries + 1
  | .literal _ => 1

def stepsHeight : List Spec → Nat
  | [] => 0
  | step :: rest => max step.height (stepsHeight rest)

def entriesHeight : List (String × Spec) → Nat
  | [] => 0
  | (_, entry) :: rest => max entry.height (entriesHeight rest)

end

theorem height_pos (spec : Spec) : 0 < spec.height := by
  cases spec <;> simp [height]

theorem stepsHeight_le_iff {steps : List Spec} {bound : Nat} :
    stepsHeight steps ≤ bound ↔ ∀ step ∈ steps, step.height ≤ bound := by
  induction steps with
  | nil => simp [stepsHeight]
  | cons step rest ih => rw [stepsHeight, Nat.max_le, ih, List.forall_mem_cons]

theorem entriesHeight_le_iff {entries : List (String × Spec)} {bound : Nat} :
    entriesHeight entries ≤ bound ↔ ∀ entry ∈ entries, entry.2.height ≤ bound := by
  induction entries with
  | nil => simp [entriesHeight]
  | cons entry rest ih => rw [entriesHeight, Nat.max_le, ih, List.forall_mem_cons]

theorem height_le_stepsHeight {step : Spec} {steps : List Spec} (hmem : step ∈ steps) :
    step.height ≤ stepsHeight steps :=
  stepsHeight_le_iff.mp (Nat.le_refl _) step hmem

theorem height_le_entriesHeight {entry : String × Spec} {entries : List (String × Spec)}
    (hmem : entry ∈ entries) : entry.2.height ≤ entriesHeight entries :=
  entriesHeight_le_iff.mp (Nat.le_refl _) entry hmem

end Reshape.Spec
