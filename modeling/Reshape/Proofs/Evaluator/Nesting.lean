import Reshape.Proofs.Evaluator.Depth
import Reshape.Proofs.Spec.Flat

/-!
# Nesting of pipelines is associative

A pipeline hands its current value to its first step, so that a step which is itself a pipeline may
as well give its steps to the pipeline around it. This holds for the first step, which may have no
current value, and for the later ones; the entries of an object start afresh.
-/

namespace Reshape.Spec

variable {registry : Registry} {source : Value}

theorem denoteSteps_append (output : Value) (steps rest : List Spec) :
    denoteSteps registry source output (steps ++ rest) =
      denoteSteps registry source output steps >>= fun output =>
        denoteSteps registry source output rest := by
  simp only [denoteSteps_eq_foldlM, List.foldlM_append]

/-- The contribution of a step stands for the step at the head of a pipeline. -/
theorem denote_sequence_splice_append (current : Option Value) (step : Spec) (rest : List Spec) :
    (Spec.sequence (step.splice ++ rest)).denote registry source current =
      step.denote registry source current >>= fun output =>
        denoteSteps registry source output rest := by
  by_cases hpipeline : step.IsPipeline
  · obtain ⟨first, more, rfl⟩ := hpipeline
    rw [splice, List.cons_append, denote, denote, bind_assoc]
    exact bind_congr fun output => denoteSteps_append output more rest
  · rw [splice_of_not_isPipeline hpipeline, List.singleton_append, denote]

theorem denoteSteps_eq_denote_sequence (output : Value) {steps : List Spec} (hsteps : steps ≠ []) :
    denoteSteps registry source output steps =
      (Spec.sequence steps).denote registry source (some output) := by
  obtain ⟨step, rest, rfl⟩ := List.exists_cons_of_ne_nil hsteps
  rw [denoteSteps, denote]

theorem denote_ofSteps (current : Option Value) (steps : List Spec) :
    (ofSteps steps).denote registry source current =
      (Spec.sequence steps).denote registry source current := by
  match steps with
  | [] => rfl
  | [step] =>
      rw [ofSteps, denote]
      exact (bind_pure _).symm
  | first :: second :: rest => rfl

theorem denoteSteps_flattenSteps {steps : List Spec}
    (hsteps : ∀ step ∈ steps, ∀ current,
      step.flatten.denote registry source current = step.denote registry source current)
    (output : Value) :
    denoteSteps registry source output (flattenSteps steps) =
      denoteSteps registry source output steps := by
  induction steps generalizing output with
  | nil => rfl
  | cons step rest ih =>
      rw [List.forall_mem_cons] at hsteps
      -- What the step contributes is not empty, so the steps from here on are a pipeline again.
      have hne : step.flatten.splice ++ flattenSteps rest ≠ [] :=
        List.append_ne_nil_of_left_ne_nil step.flatten.splice_ne_nil _
      rw [flattenSteps, denoteSteps_eq_denote_sequence output hne, denote_sequence_splice_append,
        hsteps.1, denoteSteps]
      exact bind_congr (ih hsteps.2)

theorem denote_flatten (spec : Spec) (current : Option Value) :
    spec.flatten.denote registry source current = spec.denote registry source current := by
  induction spec generalizing current with
  | filter token => rw [flatten]
  | sequence steps ih =>
      rw [flatten, denote_ofSteps]
      cases steps with
      | nil => rfl
      | cons step rest =>
          rw [List.forall_mem_cons] at ih
          rw [flattenSteps, denote_sequence_splice_append, ih.1, denote]
          exact bind_congr (denoteSteps_flattenSteps ih.2)
  | fields entries ih =>
      rw [flatten, denote, denote, denoteFields_eq_foldlM, denoteFields_eq_foldlM,
        flattenEntries_eq_map, List.foldlM_map]
      congr 1
      refine foldlM_congr (fun entry hmem fields => ?_) []
      rw [ih entry hmem]
  | literal value => rw [flatten]

end Reshape.Spec

namespace Reshape.Evaluator

/-- **Nesting of pipelines is associative.** Splicing every inner pipeline into the pipeline around
it changes no outcome. -/
theorem evaluate_flatten (evaluator : Evaluator) (source : Value) (spec : Spec)
    (hheight : spec.height ≤ evaluator.maxDepth) :
    spec.flatten.IsFlat ∧
      evaluator.evaluate source spec.flatten = evaluator.evaluate source spec := by
  have hflat := spec.height_flatten_le
  refine ⟨spec.isFlat_flatten, ?_⟩
  calc evaluator.evaluate source spec.flatten
      = spec.flatten.denote evaluator.registry source none :=
        run_eq_denote spec.flatten none 1 (by omega)
    _ = spec.denote evaluator.registry source none := spec.denote_flatten none
    _ = evaluator.evaluate source spec := (run_eq_denote spec none 1 (by omega)).symm

/-- An empty pipeline stays behind the steps before it, and a pipeline of one step goes. -/
theorem evaluate_flatten_inner :
    let mapping : Spec := .sequence
      [.sequence [.literal (.bool true), .sequence [.filter ⟨"toArray", []⟩, .sequence []]],
        .fields [("kept", .sequence [.filter ⟨"identity", []⟩])]]
    let flat : Spec := .sequence
      [.literal (.bool true), .filter ⟨"toArray", []⟩, .sequence [],
        .fields [("kept", .filter ⟨"identity", []⟩)]]
    mapping.height ≤ 4 ∧ mapping.flatten = flat ∧ flat.IsFlat ∧
      evaluate ⟨.standard, 4⟩ .null flat = evaluate ⟨.standard, 4⟩ .null mapping := by
  intro mapping flat
  have hheight : mapping.height ≤ 4 := by decide
  exact ⟨hheight, rfl, evaluate_flatten ⟨.standard, 4⟩ .null mapping hheight⟩

end Reshape.Evaluator
