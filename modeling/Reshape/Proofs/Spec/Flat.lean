import Reshape.Proofs.Spec.Height

/-!
# Pipelines without inner pipelines

A pipeline that is a step of another one gives its steps to it, and a pipeline of one step is that
step. Empty pipelines stay: they make an empty array of whatever comes before them.
-/

namespace Reshape.Spec

/-- What a step of a pipeline contributes to it. -/
def splice : Spec → List Spec
  | .sequence (step :: rest) => step :: rest
  | spec => [spec]

/-- The mapping of some steps, where a single one stands for itself. -/
def ofSteps : List Spec → Spec
  | [step] => step
  | steps => .sequence steps

mutual

/-- Splice pipelines into the pipelines around them and unwrap those of one step, everywhere. -/
def flatten : Spec → Spec
  | .filter token => .filter token
  | .sequence steps => ofSteps (flattenSteps steps)
  | .fields entries => .fields (flattenEntries entries)
  | .literal value => .literal value

def flattenSteps : List Spec → List Spec
  | [] => []
  | step :: rest => step.flatten.splice ++ flattenSteps rest

def flattenEntries : List (String × Spec) → List (String × Spec)
  | [] => []
  | (key, entry) :: rest => (key, entry.flatten) :: flattenEntries rest

end

def IsPipeline (spec : Spec) : Prop :=
  ∃ step rest, spec = .sequence (step :: rest)

/-- No pipeline has one step only, and none but an empty one is a step of another. -/
inductive IsFlat : Spec → Prop
  | filter (token : Token) : IsFlat (.filter token)
  | sequence {steps : List Spec} (hlength : steps.length ≠ 1)
      (hinner : ∀ step ∈ steps, ¬ step.IsPipeline) (hsteps : ∀ step ∈ steps, IsFlat step) :
      IsFlat (.sequence steps)
  | fields {entries : List (String × Spec)} (hentries : ∀ entry ∈ entries, IsFlat entry.2) :
      IsFlat (.fields entries)
  | literal (value : Value) : IsFlat (.literal value)

theorem splice_of_not_isPipeline {spec : Spec} (hspec : ¬ spec.IsPipeline) :
    spec.splice = [spec] := by
  cases spec with
  | sequence steps =>
      cases steps with
      | nil => rfl
      | cons step rest => exact absurd ⟨step, rest, rfl⟩ hspec
  | _ => rfl

theorem splice_ne_nil (spec : Spec) : spec.splice ≠ [] := by
  by_cases hpipeline : spec.IsPipeline
  · obtain ⟨first, rest, rfl⟩ := hpipeline
    exact List.cons_ne_nil first rest
  · rw [splice_of_not_isPipeline hpipeline]
    exact List.cons_ne_nil spec []

theorem mem_flattenSteps {step : Spec} {steps : List Spec} :
    step ∈ flattenSteps steps ↔ ∃ outer ∈ steps, step ∈ outer.flatten.splice := by
  induction steps with
  | nil => simp [flattenSteps]
  | cons head rest ih => simp [flattenSteps, ih]

theorem flattenEntries_eq_map (entries : List (String × Spec)) :
    flattenEntries entries = entries.map fun entry => (entry.1, entry.2.flatten) := by
  induction entries with
  | nil => rfl
  | cons entry rest ih => rw [flattenEntries, ih, List.map_cons]

/-! ### The result is flat -/

theorem IsFlat.of_mem_splice {spec step : Spec} (hflat : spec.IsFlat) (hmem : step ∈ spec.splice) :
    step.IsFlat ∧ ¬ step.IsPipeline := by
  by_cases hpipeline : spec.IsPipeline
  · obtain ⟨first, rest, rfl⟩ := hpipeline
    cases hflat with
    | sequence hlength hinner hsteps => exact ⟨hsteps step hmem, hinner step hmem⟩
  · rw [splice_of_not_isPipeline hpipeline, List.mem_singleton] at hmem
    subst hmem
    exact ⟨hflat, hpipeline⟩

theorem isFlat_ofSteps {steps : List Spec}
    (hsteps : ∀ step ∈ steps, step.IsFlat ∧ ¬ step.IsPipeline) : (ofSteps steps).IsFlat := by
  match steps with
  | [] => exact .sequence (by simp) (by simp) (by simp)
  | [step] => exact (hsteps step (by simp)).1
  | first :: second :: rest =>
      exact .sequence (by simp) (fun step hmem => (hsteps step hmem).2)
        (fun step hmem => (hsteps step hmem).1)

theorem isFlat_flatten (spec : Spec) : spec.flatten.IsFlat := by
  induction spec with
  | filter token =>
      rw [flatten]
      exact .filter token
  | sequence steps ih =>
      rw [flatten]
      refine isFlat_ofSteps fun step hmem => ?_
      obtain ⟨outer, houter, hstep⟩ := mem_flattenSteps.mp hmem
      exact (ih outer houter).of_mem_splice hstep
  | fields entries ih =>
      rw [flatten, flattenEntries_eq_map]
      refine .fields fun entry hmem => ?_
      obtain ⟨old, hold, rfl⟩ := List.mem_map.mp hmem
      exact ih old hold
  | literal value =>
      rw [flatten]
      exact .literal value

/-! ### The result is no higher -/

theorem height_le_of_mem_splice {spec step : Spec} (hmem : step ∈ spec.splice) :
    step.height ≤ spec.height := by
  by_cases hpipeline : spec.IsPipeline
  · obtain ⟨first, rest, rfl⟩ := hpipeline
    have hle : step.height ≤ stepsHeight (first :: rest) := height_le_stepsHeight hmem
    rw [height]
    omega
  · rw [splice_of_not_isPipeline hpipeline, List.mem_singleton] at hmem
    exact hmem ▸ Nat.le_refl _

theorem height_ofSteps_le (steps : List Spec) : (ofSteps steps).height ≤ stepsHeight steps + 1 := by
  match steps with
  | [] => exact Nat.le_refl _
  | [step] => simp [ofSteps, stepsHeight]
  | first :: second :: rest => exact Nat.le_refl _

theorem height_flatten_le (spec : Spec) : spec.flatten.height ≤ spec.height := by
  induction spec with
  | filter token => exact Nat.le_refl _
  | sequence steps ih =>
      have hsteps : stepsHeight (flattenSteps steps) ≤ stepsHeight steps := by
        rw [stepsHeight_le_iff]
        intro step hmem
        obtain ⟨outer, houter, hstep⟩ := mem_flattenSteps.mp hmem
        calc step.height
            ≤ outer.flatten.height := height_le_of_mem_splice hstep
          _ ≤ outer.height := ih outer houter
          _ ≤ stepsHeight steps := height_le_stepsHeight houter
      have hsequence := height_ofSteps_le (flattenSteps steps)
      rw [flatten, height]
      omega
  | fields entries ih =>
      have hentries : entriesHeight (flattenEntries entries) ≤ entriesHeight entries := by
        rw [entriesHeight_le_iff, flattenEntries_eq_map]
        intro entry hmem
        obtain ⟨old, hold, rfl⟩ := List.mem_map.mp hmem
        calc old.2.flatten.height
            ≤ old.2.height := ih old hold
          _ ≤ entriesHeight entries := height_le_entriesHeight hold
      rw [flatten, height, height]
      omega
  | literal value => exact Nat.le_refl _

end Reshape.Spec
