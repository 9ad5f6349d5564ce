import Reshape.Evaluator
import Reshape.Proofs.Except
import Reshape.Proofs.Spec.Height

/-!
# What a mapping means

The evaluator without its bound on nesting. The bounded evaluator stops early on mappings that are
too high and agrees with this one on all others.
-/

namespace Reshape.Spec

mutual

/-- The value of a mapping on a source and on what the steps before it have made. -/
def denote (registry : Registry) (source : Value) (current : Option Value) :
    Spec → Except MappingError Value
  | .filter token => Evaluator.runToken registry source current token
  | .sequence [] => .ok (.array [])
  | .sequence (step :: rest) => do
    let output ← denote registry source current step
    denoteSteps registry source output rest
  | .fields entries => (denoteFields registry source [] entries).map .object
  | .literal value => .ok value

def denoteSteps (registry : Registry) (source output : Value) :
    List Spec → Except MappingError Value
  | [] => .ok output
  | step :: rest => do
    let output ← denote registry source (some output) step
    denoteSteps registry source output rest

def denoteFields (registry : Registry) (source : Value) (fields : Fields Value) :
    List (String × Spec) → Except MappingError (Fields Value)
  | [] => .ok fields
  | (key, entry) :: rest => do
    let value ← denote registry source none entry
    denoteFields registry source (fields.insert key value) rest

end

variable {registry : Registry} {source : Value}

theorem runToken_ne_tooDeep (current : Option Value) (token : Token) (bound : Nat) :
    Evaluator.runToken registry source current token ≠ .error (.tooDeep bound) := by
  intro hrun
  rw [Evaluator.runToken] at hrun
  cases hget : registry.get? token.name with
  | none =>
      rw [hget] at hrun
      cases hrun
  | some filter =>
      rw [hget] at hrun
      obtain ⟨cause, -, hcause⟩ := mapError_eq_error_iff.mp hrun
      cases hcause

theorem denoteSteps_eq_foldlM (output : Value) (steps : List Spec) :
    denoteSteps registry source output steps =
      steps.foldlM (fun output step => step.denote registry source (some output)) output := by
  induction steps generalizing output with
  | nil => rfl
  | cons step rest ih =>
      rw [denoteSteps, List.foldlM_cons]
      exact bind_congr ih

theorem denoteFields_eq_foldlM (fields : Fields Value) (entries : List (String × Spec)) :
    denoteFields registry source fields entries =
      entries.foldlM (fun fields entry =>
        (entry.2.denote registry source none).map (fields.insert entry.1)) fields := by
  induction entries generalizing fields with
  | nil => rfl
  | cons entry rest ih =>
      rw [denoteFields, List.foldlM_cons]
      cases entry.2.denote registry source none with
      | error error => rfl
      | ok value => exact ih (fields.insert entry.1 value)

/-- Without a bound no mapping is too deep. -/
theorem denote_ne_tooDeep (spec : Spec) (current : Option Value) (bound : Nat) :
    spec.denote registry source current ≠ .error (.tooDeep bound) := by
  induction spec generalizing current with
  | filter token =>
      rw [denote]
      exact runToken_ne_tooDeep current token bound
  | sequence steps ih =>
      cases steps with
      | nil => simp [denote]
      | cons step rest =>
          rw [List.forall_mem_cons] at ih
          intro hrun
          rw [denote] at hrun
          rcases bind_eq_error_iff.mp hrun with hstep | ⟨output, -, hrest⟩
          · exact ih.1 current hstep
          · rw [denoteSteps_eq_foldlM] at hrest
            obtain ⟨before, failing, after, middle, rfl, -, hfailing⟩ :=
              foldlM_eq_error_iff.mp hrest
            exact ih.2 failing (by simp) _ hfailing
  | fields entries ih =>
      intro hrun
      rw [denote, map_eq_error_iff, denoteFields_eq_foldlM] at hrun
      obtain ⟨before, failing, after, middle, rfl, -, hfailing⟩ := foldlM_eq_error_iff.mp hrun
      exact ih failing (by simp) none (map_eq_error_iff.mp hfailing)
  | literal value => simp [denote]

end Reshape.Spec
