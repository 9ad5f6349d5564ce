import Reshape.Chain.Calls
import Reshape.Proofs.Except
import Reshape.Proofs.Registry.Call

/-!
# Runs of a chain

Whatever is done with a chain is one of a few operations: calls of filters by name, by method or
directly, and the two ways to look at the captured failure. A call is described by what it gives on
the working value and by the path that it leaves, and the chain after it by these two alone.
-/

namespace Reshape

/-- The path that a successful call leaves: the first argument of a path filter, if it is a text. -/
def Filter.recordedPath? (filter : Filter) (args : List Arg) : Option String :=
  match filter.kind with
  | .value => none
  | .path => args.head?.bind Arg.text?

namespace Chain

/-- The filters of the library that a chain calls by a method of its own. -/
inductive Method where
  | get (path : String)
  | getOr (path : String) (default : Value)
  | set (value : Value)
  | put (path : String) (value : Value)
  | has (path : String)
  | identity
  | flatten (deep : Bool)
  | unique
  | sum
  | child (index : Int)
  | nth (index : Int)
  | compact
  | concat (value : Value)
  | join (separator : String)
  | reverse
  | slice (start : Int) (stop : Option Int)
  | length
  | find (iteratee : Arg)
  | findWhere (iteratee : Arg)
  | map (iteratee : Arg)
  | filter (iteratee : Arg)
  | reduce (callback : Arg) (initial : Option Value)
  | sort
  | sortWith (compare : Arg)
  | toStr
  | toInt (radix : Nat)
  | toFloat
  | toBool
  | toArray
  | toObject
  | stringify

namespace Method

def on (chain : Chain) : Method → Chain
  | get path => chain.get path
  | getOr path default => chain.getOr path default
  | set value => chain.set value
  | put path value => chain.put path value
  | has path => chain.has path
  | identity => chain.identity
  | flatten deep => chain.flatten deep
  | unique => chain.unique
  | sum => chain.sum
  | child index => chain.child index
  | nth index => chain.nth index
  | compact => chain.compact
  | concat value => chain.concat value
  | join separator => chain.join separator
  | reverse => chain.reverse
  | slice start stop => chain.slice start stop
  | length => chain.length
  | find iteratee => chain.find iteratee
  | findWhere iteratee => chain.findWhere iteratee
  | map iteratee => chain.map iteratee
  | filter iteratee => chain.filter iteratee
  | reduce callback initial => chain.reduce callback initial
  | sort => chain.sort
  | sortWith compare => chain.sortWith compare
  | toStr => chain.toStr
  | toInt radix => chain.toInt radix
  | toFloat => chain.toFloat
  | toBool => chain.toBool
  | toArray => chain.toArray
  | toObject => chain.toObject
  | stringify => chain.stringify

def name : Method → String
  | get _ | getOr _ _ => "get"
  | set _ => "set"
  | put _ _ => "put"
  | has _ => "has"
  | identity => "identity"
  | flatten _ => "flatten"
  | unique => "unique"
  | sum => "sum"
  | child _ => "child"
  | nth _ => "nth"
  | compact => "compact"
  | concat _ => "concat"
  | join _ => "join"
  | reverse => "reverse"
  | slice _ _ => "slice"
  | length => "length"
  | find _ => "find"
  | findWhere _ => "findWhere"
  | map _ => "map"
  | filter _ => "filter"
  | reduce _ _ => "reduce"
  | sort | sortWith _ => "sort"
  | toStr => "toStr"
  | toInt _ => "toInt"
  | toFloat => "toFloat"
  | toBool => "toBool"
  | toArray => "toArray"
  | toObject => "toObject"
  | stringify => "stringify"

def args : Method → List Arg
  | get path | has path => [.ofText path]
  | getOr path value | put path value => [.ofText path, .value value]
  | set value | concat value => [.value value]
  | flatten deep => [.value (.bool deep)]
  | child index | nth index => [.value (.integer index)]
  | join separator => [.ofText separator]
  | slice start stop => .value (.integer start) :: stop.toList.map fun n => .value (.integer n)
  | find f | findWhere f | map f | filter f | sortWith f => [f]
  | reduce callback initial => callback :: initial.toList.map Arg.value
  | toInt radix => [.value (.integer radix)]
  | identity | unique | sum | compact | reverse | length | sort | toStr | toFloat | toBool
  | toArray | toObject | stringify => []

theorem on_eq_call (chain : Chain) (method : Method) :
    method.on chain = chain.call method.name method.args := by
  cases method <;> rfl

end Method

inductive Action where
  | call (name : String) (args : List Arg)
  | apply (filter : Filter) (args : List Arg)
  | method (method : Method)
  | check (handler : FilterError → Value → String → List Arg → Except MappingError Unit)
      (args : List Arg)
  | raise

namespace Action

def on (chain : Chain) : Action → Except MappingError Chain
  | .call name args => .ok (chain.call name args)
  | .apply filter args => .ok (chain.apply filter args)
  | .method m => .ok (m.on chain)
  | .check handler args => chain.check handler args
  | .raise => chain.raise

/-- What an operation gives as a call on a working value; the others call nothing. -/
def Gives (registry : Registry) (source value : Value) : Action → Outcome → Prop
  | .call name args => registry.Gives name value source args
  | .apply filter args => filter.Gives value source args
  | .method m => registry.Gives m.name value source m.args
  | .check .. | .raise => fun _ => False

def recordedPath? (registry : Registry) : Action → Option String
  | .call name args => (registry.get? name).bind fun filter => filter.recordedPath? args
  | .apply filter args => filter.recordedPath? args
  | .method m => (registry.get? m.name).bind fun filter => filter.recordedPath? m.args
  | .check .. | .raise => none

end Action

/-- The chain after an operation; one that stops its caller leaves the chain as it was. -/
def step (chain : Chain) (action : Action) : Chain :=
  match action.on chain with
  | .ok next => next
  | .error _ => chain

def run (chain : Chain) (actions : List Action) : Chain :=
  actions.foldl step chain

/-- The chain after a call with an outcome, which leaves a path where it is a value. -/
def settle (chain : Chain) (recorded : Option String) : Outcome → Chain
  | .ok value => { chain with value, path := recorded.getD chain.path }
  | .error error => chain.fail error

theorem run_cons (chain : Chain) (action : Action) (rest : List Action) :
    chain.run (action :: rest) = (chain.step action).run rest := rfl

theorem run_append (chain : Chain) (actions rest : List Action) :
    chain.run (actions ++ rest) = (chain.run actions).run rest :=
  List.foldl_append

theorem pathAfter_eq (chain : Chain) (filter : Filter) (args : List Arg) :
    chain.pathAfter filter args = (filter.recordedPath? args).getD chain.path := by
  rw [pathAfter, Filter.recordedPath?]
  cases filter.kind <;> rfl

theorem apply_eq_settle (chain : Chain) (filter : Filter) (args : List Arg) :
    chain.apply filter args =
      chain.settle (filter.recordedPath? args)
        (filter.invoke chain.value chain.source args) := by
  rw [apply, pathAfter_eq]
  cases filter.invoke chain.value chain.source args <;> rfl

theorem call_eq_settle (chain : Chain) (name : String) (args : List Arg) :
    chain.call name args =
      chain.settle ((chain.registry.get? name).bind fun filter => filter.recordedPath? args)
        (chain.registry.invoke name chain.value chain.source args) := by
  rw [call, Registry.invoke]
  cases chain.registry.get? name with
  | none => rfl
  | some filter => exact chain.apply_eq_settle filter args

theorem eq_of_check_eq_ok {ε : Type} {chain next : Chain}
    {handler : FilterError → Value → String → List Arg → Except ε Unit} {args : List Arg}
    (hcheck : chain.check handler args = .ok next) : next = chain := by
  rw [check] at hcheck
  cases hfirst : chain.firstError with
  | none =>
      rw [hfirst] at hcheck
      exact (Except.ok.inj hcheck).symm
  | some error =>
      rw [hfirst] at hcheck
      obtain ⟨_, -, hnext⟩ := map_eq_ok_iff.mp hcheck
      exact hnext.symm

theorem eq_of_raise_eq_ok {chain next : Chain} (hraise : chain.raise = .ok next) :
    next = chain := by
  rw [raise] at hraise
  cases hfirst : chain.firstError with
  | none =>
      rw [hfirst] at hraise
      exact (Except.ok.inj hraise).symm
  | some error =>
      rw [hfirst] at hraise
      cases hraise

theorem step_check (chain : Chain)
    (handler : FilterError → Value → String → List Arg → Except MappingError Unit)
    (args : List Arg) : chain.step (.check handler args) = chain := by
  rw [step, Action.on]
  cases hcheck : chain.check handler args with
  | ok next => exact eq_of_check_eq_ok hcheck
  | error error => rfl

theorem step_raise (chain : Chain) : chain.step .raise = chain := by
  rw [step, Action.on]
  cases hraise : chain.raise with
  | ok next => exact eq_of_raise_eq_ok hraise
  | error error => rfl

/-- A call does what its outcome says. -/
theorem step_of_gives {chain : Chain} {action : Action} {outcome : Outcome}
    (hcall : action.Gives chain.registry chain.source chain.value outcome) :
    chain.step action = chain.settle (action.recordedPath? chain.registry) outcome := by
  cases action with
  | call name args =>
      obtain rfl := Registry.gives_iff.mp hcall
      exact chain.call_eq_settle name args
  | apply filter args =>
      obtain rfl := Filter.gives_iff.mp hcall
      exact chain.apply_eq_settle filter args
  | method m =>
      obtain rfl := Registry.gives_iff.mp hcall
      rw [step, Action.on, Method.on_eq_call]
      exact chain.call_eq_settle m.name m.args
  | check handler args => cases hcall
  | raise => cases hcall

/-- An operation that calls nothing does nothing. -/
theorem step_of_forall_not_gives {chain : Chain} {action : Action}
    (hlook : ∀ outcome, ¬ action.Gives chain.registry chain.source chain.value outcome) :
    chain.step action = chain := by
  cases action with
  | call name args => exact absurd (Registry.gives_iff.mpr rfl) (hlook _)
  | apply filter args => exact absurd (Filter.gives_iff.mpr rfl) (hlook _)
  | method m => exact absurd (Registry.gives_iff.mpr rfl) (hlook _)
  | check handler args => exact chain.step_check handler args
  | raise => exact chain.step_raise

theorem settle_frame (chain : Chain) (recorded : Option String) (outcome : Outcome) :
    (chain.settle recorded outcome).registry = chain.registry ∧
      (chain.settle recorded outcome).source = chain.source := by
  cases outcome <;> exact ⟨rfl, rfl⟩

theorem step_frame (chain : Chain) (action : Action) :
    (chain.step action).registry = chain.registry ∧
      (chain.step action).source = chain.source := by
  by_cases hcall : ∃ outcome, action.Gives chain.registry chain.source chain.value outcome
  · obtain ⟨outcome, hcall⟩ := hcall
    rw [step_of_gives hcall]
    exact chain.settle_frame _ _
  · rw [step_of_forall_not_gives (not_exists.mp hcall)]
    exact ⟨rfl, rfl⟩

/-- No operation touches the filters or the source. -/
theorem run_frame (chain : Chain) (actions : List Action) :
    (chain.run actions).registry = chain.registry ∧
      (chain.run actions).source = chain.source := by
  induction actions generalizing chain with
  | nil => exact ⟨rfl, rfl⟩
  | cons action rest ih =>
      rw [run_cons, (ih (chain.step action)).1, (ih (chain.step action)).2]
      exact chain.step_frame action

end Chain

end Reshape
