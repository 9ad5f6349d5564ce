import Reshape.Proofs.Chain.Run

/-!
# The history of a chain

The calls of a run, each with what it gives, follow from the source and the filters alone: a call
that succeeds hands its value to the next one, a call that fails hands on the value it was given.
The captured failure, the value and the path of a chain are what this history says.
-/

namespace Reshape.Chain

/-- The calls of a run from a working value on, each with its outcome. -/
inductive History (registry : Registry) (source : Value) :
    Value → List Action → List (Action × Outcome) → Prop
  | nil (value : Value) : History registry source value [] []
  | success {value : Value} {action : Action} {rest : List Action}
      {calls : List (Action × Outcome)} (next : Value)
      (hcall : action.Gives registry source value (.ok next))
      (hrest : History registry source next rest calls) :
      History registry source value (action :: rest) ((action, .ok next) :: calls)
  | failure {value : Value} {action : Action} {rest : List Action}
      {calls : List (Action × Outcome)} (error : FilterError)
      (hcall : action.Gives registry source value (.error error))
      (hrest : History registry source value rest calls) :
      History registry source value (action :: rest) ((action, .error error) :: calls)
  | look {value : Value} {action : Action} {rest : List Action} {calls : List (Action × Outcome)}
      (hlook : ∀ outcome, ¬ action.Gives registry source value outcome)
      (hrest : History registry source value rest calls) :
      History registry source value (action :: rest) calls

def failure? : Action × Outcome → Option FilterError
  | (_, .ok _) => none
  | (_, .error error) => some error

def firstFailure? (calls : List (Action × Outcome)) : Option FilterError :=
  calls.findSome? failure?

def success? : Action × Outcome → Option Action
  | (action, .ok _) => some action
  | (_, .error _) => none

def successes (calls : List (Action × Outcome)) : List Action :=
  calls.filterMap success?

theorem successes_cons_ok (action : Action) (value : Value) (calls : List (Action × Outcome)) :
    successes ((action, .ok value) :: calls) = action :: successes calls := rfl

theorem Action.Gives.unique {registry : Registry} {source value : Value} {action : Action}
    {outcome other : Outcome} (hcall : action.Gives registry source value outcome)
    (hother : action.Gives registry source value other) : outcome = other := by
  cases action with
  | call name args => exact (Registry.gives_iff.mp hcall).symm.trans (Registry.gives_iff.mp hother)
  | apply filter args => exact (Filter.gives_iff.mp hcall).symm.trans (Filter.gives_iff.mp hother)
  | method m => exact (Registry.gives_iff.mp hcall).symm.trans (Registry.gives_iff.mp hother)
  | check handler args => cases hcall
  | raise => cases hcall

/-! ### There is one history of a run -/

section History

variable {registry : Registry} {source value : Value} {actions : List Action}
  {calls : List (Action × Outcome)}

theorem exists_history (registry : Registry) (source value : Value) (actions : List Action) :
    ∃ calls, History registry source value actions calls := by
  induction actions generalizing value with
  | nil => exact ⟨[], .nil value⟩
  | cons action rest ih =>
      by_cases hcall : ∃ outcome, action.Gives registry source value outcome
      · obtain ⟨outcome, hcall⟩ := hcall
        cases outcome with
        | ok next =>
            obtain ⟨calls, hrest⟩ := ih next
            exact ⟨_, .success next hcall hrest⟩
        | error error =>
            obtain ⟨calls, hrest⟩ := ih value
            exact ⟨_, .failure error hcall hrest⟩
      · obtain ⟨calls, hrest⟩ := ih value
        exact ⟨_, .look (not_exists.mp hcall) hrest⟩

theorem History.unique {told : List (Action × Outcome)}
    (hhistory : History registry source value actions calls)
    (htold : History registry source value actions told) : told = calls := by
  induction hhistory generalizing told with
  | nil value =>
      cases htold
      rfl
  | success next hcall _ ih =>
      cases htold with
      | success other hother hrest =>
          obtain ⟨⟩ := hcall.unique hother
          rw [ih hrest]
      | failure other hother hrest => cases hcall.unique hother
      | look hlook hrest => exact absurd hcall (hlook _)
  | failure error hcall _ ih =>
      cases htold with
      | success other hother hrest => cases hcall.unique hother
      | failure other hother hrest =>
          obtain ⟨⟩ := hcall.unique hother
          rw [ih hrest]
      | look hlook hrest => exact absurd hcall (hlook _)
  | look hlook _ ih =>
      cases htold with
      | success other hother hrest => exact absurd hother (hlook _)
      | failure other hother hrest => exact absurd hother (hlook _)
      | look _ hrest => exact ih hrest

end History

/-! ### What a chain knows of its history -/

section Run

variable (chain : Chain) {actions : List Action} {calls : List (Action × Outcome)}

/-- A run that goes on adds what its further calls give on the value that the chain has by then. -/
theorem history_append {rest : List Action} {more : List (Action × Outcome)}
    (hhistory : History chain.registry chain.source chain.value actions calls)
    (hmore : History chain.registry chain.source (chain.run actions).value rest more) :
    History chain.registry chain.source chain.value (actions ++ rest) (calls ++ more) := by
  induction actions generalizing chain calls with
  | nil =>
      cases hhistory
      exact hmore
  | cons action actions ih =>
      rw [run_cons] at hmore
      cases hhistory with
      | success next hcall hrest =>
          rw [step_of_gives hcall] at hmore
          have hlater := ih (chain.settle _ (.ok next)) hrest hmore
          exact .success next hcall hlater
      | failure error hcall hrest =>
          rw [step_of_gives hcall] at hmore
          have hlater := ih (chain.fail error) hrest hmore
          exact .failure error hcall hlater
      | look hlook hrest =>
          rw [step_of_forall_not_gives hlook] at hmore
          exact .look hlook (ih chain hrest hmore)

/-- What a longer history begins with: a call, after which the chain is settled, or no call. -/
theorem history_cons_cases {action : Action} {rest : List Action}
    (hhistory : History chain.registry chain.source chain.value (action :: rest) calls) :
    (∃ outcome later, calls = (action, outcome) :: later ∧
      action.Gives chain.registry chain.source chain.value outcome ∧
      History (chain.settle (action.recordedPath? chain.registry) outcome).registry
        (chain.settle (action.recordedPath? chain.registry) outcome).source
        (chain.settle (action.recordedPath? chain.registry) outcome).value rest later) ∨
    (∀ outcome, ¬ action.Gives chain.registry chain.source chain.value outcome) ∧
      History chain.registry chain.source chain.value rest calls := by
  cases hhistory with
  | success next hcall hrest => exact Or.inl ⟨.ok next, _, rfl, hcall, hrest⟩
  | failure error hcall hrest => exact Or.inl ⟨.error error, _, rfl, hcall, hrest⟩
  | look hlook hrest => exact Or.inr ⟨hlook, hrest⟩

theorem firstError_run
    (hhistory : History chain.registry chain.source chain.value actions calls) :
    (chain.run actions).firstError = (chain.firstError <|> firstFailure? calls) := by
  induction actions generalizing chain calls with
  | nil =>
      cases hhistory
      simp [run, firstFailure?]
  | cons action rest ih =>
      rw [run_cons]
      rcases chain.history_cons_cases hhistory with
        ⟨outcome, later, rfl, hcall, hlater⟩ | ⟨hlook, hlater⟩
      · rw [step_of_gives hcall, ih _ hlater]
        cases outcome with
        | ok value => rfl
        | error error =>
            rw [settle, fail]
            cases chain.firstError <;> rfl
      · rw [step_of_forall_not_gives hlook, ih chain hlater]

/-- The calls that succeed do so without the others, whatever failure is captured. -/
theorem run_successes (firstError : Option FilterError)
    (hhistory : History chain.registry chain.source chain.value actions calls) :
    ({ chain with firstError } : Chain).run (successes calls) =
      { chain.run actions with firstError } := by
  -- The given failure stays fixed while the chain moves on: a failing call changes only what the
  -- chain captures, so that both sides go on from the same value and path.
  induction actions generalizing chain calls with
  | nil =>
      cases hhistory
      rfl
  | cons action rest ih =>
      rw [run_cons]
      rcases chain.history_cons_cases hhistory with
        ⟨outcome, later, rfl, hcall, hlater⟩ | ⟨hlook, hlater⟩
      · rw [step_of_gives hcall, ← ih _ hlater]
        cases outcome with
        | ok value =>
            have hstep : ({ chain with firstError } : Chain).step action =
                { chain with firstError }.settle (action.recordedPath? chain.registry)
                  (.ok value) :=
              step_of_gives hcall
            rw [successes_cons_ok, run_cons, hstep]
            rfl
        | error error => rfl
      · rw [step_of_forall_not_gives hlook, ih chain hlater]

theorem path_run (hhistory : History chain.registry chain.source chain.value actions calls) :
    (chain.run actions).path =
      ((successes calls).filterMap (Action.recordedPath? chain.registry)).getLast?.getD
        chain.path := by
  induction actions generalizing chain calls with
  | nil =>
      cases hhistory
      rfl
  | cons action rest ih =>
      rw [run_cons]
      rcases chain.history_cons_cases hhistory with
        ⟨outcome, later, rfl, hcall, hlater⟩ | ⟨hlook, hlater⟩
      · rw [step_of_gives hcall, ih _ hlater]
        cases outcome with
        | ok value =>
            rw [successes_cons_ok, List.filterMap_cons]
            cases action.recordedPath? chain.registry with
            | none => rfl
            | some path =>
                rw [List.getLast?_cons]
                rfl
        | error error => rfl
      · rw [step_of_forall_not_gives hlook, ih chain hlater]

end Run

theorem failure?_eq_some_iff {call : Action × Outcome} {error : FilterError} :
    failure? call = some error ↔ call.2 = .error error := by
  obtain ⟨action, outcome⟩ := call
  cases outcome <;> simp [failure?]

theorem exists_firstFailure?_iff {calls : List (Action × Outcome)} :
    (∃ error, firstFailure? calls = some error) ↔
      ∃ call ∈ calls, ∃ error, call.2 = .error error := by
  simp only [firstFailure?, ← Option.isSome_iff_exists, List.findSome?_isSome_iff]
  simp only [Option.isSome_iff_exists, failure?_eq_some_iff]

theorem isClean_eq_false_iff {chain : Chain} :
    chain.isClean = false ↔ ∃ error, chain.firstError = some error := by
  rw [isClean]
  cases chain.firstError <;> simp

theorem firstError_run_of_eq_some {chain : Chain} {error : FilterError}
    (hfirst : chain.firstError = some error) (actions : List Action) :
    (chain.run actions).firstError = some error := by
  obtain ⟨calls, hhistory⟩ :=
    exists_history chain.registry chain.source chain.value actions
  rw [chain.firstError_run hhistory, hfirst]
  rfl

/-- **A chain tells its history.** A run has one history, of calls that each give what a call gives,
and what is done later only adds to it. Its first failing call gives the captured failure for good;
the value and the path are those of its successful calls alone; looking at the failure changes
nothing, and shows it exactly when a call has failed. -/
theorem run_start_tells_history (registry : Registry) (source : Value) (actions : List Action) :
    let chain := (start registry source).run actions
    ∃ calls, History registry source .null actions calls ∧
      (∀ told, History registry source .null actions told → told = calls) ∧
      (∀ rest more, History registry source chain.value rest more →
        History registry source .null (actions ++ rest) (calls ++ more)) ∧
      (chain.firstError = firstFailure? calls ∧
        ∀ later, chain.firstError = none ∨ (chain.run later).firstError = chain.firstError) ∧
      (chain.isClean = false ↔ ∃ call ∈ calls, ∃ error, call.2 = .error error) ∧
      (((start registry source).run (successes calls)).value = chain.value ∧
        ((start registry source).run (successes calls)).path = chain.path) ∧
      chain.path = ((successes calls).filterMap (Action.recordedPath? registry)).getLast?.getD "" ∧
      (∀ handler args, chain.step (.check handler args) = chain) ∧ chain.step .raise = chain ∧
      (∀ (ε : Type) (handler : FilterError → Value → String → List Arg → Except ε Unit) args,
        chain.check handler args =
          match firstFailure? calls with
          | some error => (handler error source chain.path args).map fun _ => chain
          | none => .ok chain) ∧
      chain.raise =
        match firstFailure? calls with
        | some error => .error (.chain chain.path error)
        | none => .ok chain := by
  intro chain
  obtain ⟨calls, hhistory⟩ := exists_history registry source .null actions
  have hfirst : chain.firstError = firstFailure? calls :=
    (start registry source).firstError_run hhistory
  have hsuccesses : (start registry source).run (successes calls) =
      { chain with firstError := none } :=
    (start registry source).run_successes none hhistory
  refine ⟨calls, hhistory, fun told => hhistory.unique, fun rest more =>
    (start registry source).history_append hhistory, ⟨hfirst, fun later => ?_⟩, ?_, ⟨?_, ?_⟩,
    (start registry source).path_run hhistory, chain.step_check, chain.step_raise, ?_, ?_⟩
  · cases herror : chain.firstError with
    | none => exact Or.inl rfl
    | some error => exact Or.inr (firstError_run_of_eq_some herror later)
  · rw [isClean_eq_false_iff, hfirst]
    exact exists_firstFailure?_iff
  · rw [hsuccesses]
  · rw [hsuccesses]
  · intro ε handler args
    have hsource : chain.source = source := (run_frame (start registry source) actions).2
    have hcheck : chain.check handler args =
        match chain.firstError with
        | some error => (handler error chain.source chain.path args).map fun _ => chain
        | none => .ok chain := rfl
    rw [hfirst, hsource] at hcheck
    exact hcheck
  · have hraise : chain.raise =
        match chain.firstError with
        | some error => .error (.chain chain.path error)
        | none => .ok chain := rfl
    rw [hfirst] at hraise
    exact hraise

end Reshape.Chain
