import Reshape.Registry

/-!
# What a call gives

A name that is not registered fails by itself, and so does a filter on a number of arguments that
its arity leaves out; every other call gives what the function of the filter gives. What filters and
registries compute for a call is just this.
-/

namespace Reshape

/-- The number of arguments is within the bounds, of which the upper one may be missing. -/
def Arity.Admits (arity : Arity) (count : Nat) : Prop :=
  arity.min ≤ count ∧ ∀ max, arity.max = some max → count ≤ max

theorem Arity.accepts_eq_true_iff {arity : Arity} {count : Nat} :
    arity.accepts count = true ↔ arity.Admits count := by
  simp [accepts, Admits, Option.all_eq_true]

variable {input source : Value} {args : List Arg} {outcome : Outcome}

/-- What a filter gives on its arguments. -/
inductive Filter.Gives (filter : Filter) (input source : Value) (args : List Arg) : Outcome → Prop
  | run (hcount : filter.arity.Admits args.length) :
      Gives filter input source args (filter.run input source args)
  | arity (hcount : ¬ filter.arity.Admits args.length) :
      Gives filter input source args (.error (.arity filter.name filter.arity args.length))

theorem Filter.gives_iff {filter : Filter} :
    filter.Gives input source args outcome ↔ filter.invoke input source args = outcome := by
  rw [invoke]
  by_cases hcount : filter.arity.Admits args.length
  · rw [if_pos (Arity.accepts_eq_true_iff.mpr hcount)]
    constructor
    · rintro (_ | hnot)
      · rfl
      · exact absurd hcount hnot
    · rintro rfl
      exact .run hcount
  · rw [if_neg (mt Arity.accepts_eq_true_iff.mp hcount)]
    constructor
    · rintro (hadmits | _)
      · exact absurd hadmits hcount
      · rfl
    · rintro rfl
      exact .arity hcount

/-- What a call of a filter by its name gives. -/
inductive Registry.Gives (registry : Registry) (name : String) (input source : Value)
    (args : List Arg) : Outcome → Prop
  | found {filter : Filter} {outcome : Outcome} (hname : registry.get? name = some filter)
      (hcall : filter.Gives input source args outcome) :
      Gives registry name input source args outcome
  | unknown (hname : registry.get? name = none) :
      Gives registry name input source args (.error (.unknownFilter name))

theorem Registry.gives_iff {registry : Registry} {name : String} :
    registry.Gives name input source args outcome ↔
      registry.invoke name input source args = outcome := by
  rw [invoke]
  cases hname : registry.get? name with
  | none =>
      constructor
      · rintro (⟨hfound, -⟩ | _)
        · rw [hname] at hfound
          cases hfound
        · rfl
      · rintro rfl
        exact .unknown hname
  | some filter =>
      constructor
      · rintro (⟨hfound, hcall⟩ | hunknown)
        · obtain rfl : filter = _ := Option.some.inj (hname.symm.trans hfound)
          exact Filter.gives_iff.mp hcall
        · rw [hname] at hunknown
          cases hunknown
      · intro hinvoke
        exact .found hname (Filter.gives_iff.mpr hinvoke)

end Reshape
