import Reshape.Proofs.Registry.Build
import Reshape.Proofs.Spec.Token

/-!
# Registries in use

A program makes registries, each new one beside those it has, and registers filters in them in
place. Every one of these operations keeps all registries well-formed, and in a well-formed registry
the texts of tokens reach every entry.
-/

namespace Reshape.Registry

/-- Registering as a program on a registry in place: the check comes before anything is stored. -/
def registerInPlace (filter : Filter) : ExceptT RegistrationError (StateM Registry) Unit := do
  if let some fault := filter.fault? then
    throw ⟨filter.name, fault⟩
  modify (·.insert filter)

/-- What is done with registries; a position says which of those made so far is meant. -/
inductive Action where
  | create
  | standard
  | build (defaults custom : List Filter)
  | merge (position : Nat) (custom : List Filter)
  | register (position : Nat) (filter : Filter)
  | withName (position : Nat) (name other : String)
  | withKind (position : Nat) (name : String) (kind : FilterKind)

/-- The registry that an operation registers in, if it is one that does. -/
def Action.target? : Action → Option Nat
  | .register position _ | .withName position .. | .withKind position .. => some position
  | .create | .standard | .build .. | .merge .. => none

def registerAt (registries : List Registry) (position : Nat) (filter : Filter) : List Registry :=
  registries.modify position fun registry => ((registerInPlace filter).run.run registry).2

/-- Register a changed copy of an entry beside it or in its place. -/
def reregister (registries : List Registry) (position : Nat) (name : String)
    (change : Filter → Filter) : List Registry :=
  match registries[position]?.bind (·.get? name) with
  | some filter => registerAt registries position (change filter)
  | none => registries

def push (registries : List Registry) : Except RegistrationError Registry → List Registry
  | .ok made => registries ++ [made]
  | .error _ => registries

/-- The registries after an operation; one that fails adds none and changes none. -/
def step (registries : List Registry) : Action → List Registry
  | .create => registries ++ [empty]
  | .standard => registries ++ [standard]
  | .build defaults custom => push registries (Registry.build defaults custom)
  | .merge position custom =>
    match registries[position]? with
    | some registry => push registries (registry.merged custom)
    | none => registries
  | .register position filter => registerAt registries position filter
  | .withName position name other => reregister registries position name (·.withName other)
  | .withKind position name kind => reregister registries position name (·.withKind kind)

def run (actions : List Action) : List Registry :=
  actions.foldl step []

theorem run_append_singleton (actions : List Action) (action : Action) :
    run (actions ++ [action]) = step (run actions) action := by
  rw [run, List.foldl_append]
  rfl

theorem run_registerInPlace (filter : Filter) (registry : Registry) :
    (registerInPlace filter).run.run registry =
      match registry.register filter with
      | .ok next => (.ok (), next)
      | .error error => (.error error, registry) := by
  rw [registerInPlace, register]
  cases filter.fault? <;> rfl

theorem eq_of_registerInPlace_eq_error {filter : Filter} {registry after : Registry}
    {error : RegistrationError}
    (hrun : (registerInPlace filter).run.run registry = (.error error, after)) :
    after = registry := by
  rw [run_registerInPlace] at hrun
  cases hregister : registry.register filter with
  | ok next =>
      rw [hregister] at hrun
      cases hrun
  | error error =>
      rw [hregister] at hrun
      cases hrun
      rfl

section Step

variable {registries : List Registry} {position : Nat} {filter : Filter} {name : String}
  {custom : List Filter} {registry result : Registry}

theorem WellFormed.registerInPlace (hregistry : registry.WellFormed) (filter : Filter) :
    ((registerInPlace filter).run.run registry).2.WellFormed := by
  rw [run_registerInPlace]
  cases hregister : registry.register filter with
  | error error => exact hregistry
  | ok next =>
      obtain ⟨hvalid, rfl⟩ := register_eq_ok_iff.mp hregister
      exact hregistry.insert hvalid

theorem wellFormed_build {defaults : List Filter} (hbuild : build defaults custom = .ok result) :
    result.WellFormed := by
  rw [build_eq_registerAll] at hbuild
  exact wellFormed_empty.registerAll hbuild

theorem wellFormed_registerAt (hall : ∀ registry ∈ registries, registry.WellFormed) :
    ∀ registry ∈ registerAt registries position filter, registry.WellFormed := by
  intro registry hmem
  obtain ⟨index, hindex⟩ := List.mem_iff_getElem?.mp hmem
  rw [registerAt, List.getElem?_modify] at hindex
  obtain ⟨before, hbefore, rfl⟩ := Option.map_eq_some_iff.mp hindex
  have hwell : before.WellFormed := hall before (List.mem_of_getElem? hbefore)
  split_ifs
  · exact hwell.registerInPlace filter
  · exact hwell

theorem wellFormed_reregister {change : Filter → Filter}
    (hall : ∀ registry ∈ registries, registry.WellFormed) :
    ∀ registry ∈ reregister registries position name change, registry.WellFormed := by
  rw [reregister]
  split
  · exact wellFormed_registerAt hall
  · exact hall

theorem wellFormed_append (hall : ∀ registry ∈ registries, registry.WellFormed)
    (hresult : result.WellFormed) : ∀ registry ∈ registries ++ [result], registry.WellFormed := by
  rw [List.forall_mem_append, List.forall_mem_singleton]
  exact ⟨hall, hresult⟩

theorem wellFormed_push_build {defaults : List Filter}
    (hall : ∀ registry ∈ registries, registry.WellFormed) :
    ∀ registry ∈ push registries (build defaults custom), registry.WellFormed := by
  cases hbuild : build defaults custom with
  | error error => exact hall
  | ok result => exact wellFormed_append hall (wellFormed_build hbuild)

/-- No operation stores an entry that is not valid, under a name not its own, or two under one. -/
theorem wellFormed_step (hall : ∀ registry ∈ registries, registry.WellFormed) (action : Action) :
    ∀ registry ∈ step registries action, registry.WellFormed := by
  cases action with
  | create => exact wellFormed_append hall wellFormed_empty
  | standard => exact wellFormed_append hall wellFormed_standard
  | build defaults custom => exact wellFormed_push_build hall
  | merge position custom =>
      rw [step]
      split
      · exact wellFormed_push_build hall
      · exact hall
  | register position filter => exact wellFormed_registerAt hall
  | withName position name other => exact wellFormed_reregister hall
  | withKind position name kind => exact wellFormed_reregister hall

end Step

section Frame

variable {registries : List Registry} {position target : Nat} {registry : Registry}

theorem getElem?_registerAt (hregistry : registries[position]? = some registry)
    (hother : target ≠ position) (filter : Filter) :
    (registerAt registries target filter)[position]? = some registry := by
  rw [registerAt, List.getElem?_modify, hregistry, Option.map_eq_map, Option.map_some,
    if_neg hother]

theorem getElem?_reregister (hregistry : registries[position]? = some registry)
    (hother : target ≠ position) (name : String) (change : Filter → Filter) :
    (reregister registries target name change)[position]? = some registry := by
  rw [reregister]
  split
  · exact getElem?_registerAt hregistry hother _
  · exact hregistry

theorem getElem?_append (hregistry : registries[position]? = some registry) (made : Registry) :
    (registries ++ [made])[position]? = some registry := by
  have hlt : position < registries.length := (List.getElem?_eq_some_iff.mp hregistry).1
  rw [List.getElem?_append_left hlt]
  exact hregistry

theorem getElem?_push (hregistry : registries[position]? = some registry)
    (made : Except RegistrationError Registry) :
    (push registries made)[position]? = some registry := by
  cases made with
  | error error => exact hregistry
  | ok result => exact getElem?_append hregistry result

/-- Whatever is done, a registry stays as it is unless something is registered in it. -/
theorem getElem?_step {action : Action} (hregistry : registries[position]? = some registry)
    (hother : action.target? ≠ some position) :
    (step registries action)[position]? = some registry := by
  cases action with
  | create => exact getElem?_append hregistry empty
  | standard => exact getElem?_append hregistry standard
  | build defaults custom => exact getElem?_push hregistry _
  | merge source custom =>
      rw [step]
      split
      · exact getElem?_push hregistry _
      · exact hregistry
  | register target filter => exact getElem?_registerAt hregistry (hother ∘ congrArg some) filter
  | withName target name other =>
      exact getElem?_reregister hregistry (hother ∘ congrArg some) name _
  | withKind target name kind =>
      exact getElem?_reregister hregistry (hother ∘ congrArg some) name _

end Frame

theorem wellFormed_foldl_step {registries : List Registry}
    (hall : ∀ registry ∈ registries, registry.WellFormed) (actions : List Action) :
    ∀ registry ∈ actions.foldl step registries, registry.WellFormed := by
  induction actions generalizing registries with
  | nil => exact hall
  | cons action rest ih => exact ih (wellFormed_step hall action)

theorem wellFormed_of_mem_run {actions : List Action} :
    ∀ registry ∈ run actions, registry.WellFormed :=
  wellFormed_foldl_step (by simp) actions

theorem WellFormed.parse_intercalate {registry : Registry} {name : String} {filter : Filter}
    {args : List String} (hregistry : registry.WellFormed)
    (hget : registry.get? name = some filter) (hargs : ∀ arg ∈ args, ':' ∉ arg.toList) :
    Token.parse (":".intercalate (name :: args)) = ⟨name, args⟩ := by
  obtain ⟨hmem, rfl⟩ := hregistry.get?_eq_some_iff.mp hget
  have hname : ':' ∉ filter.name.toList := (hregistry.valid filter hmem).no_colon
  have hfree : Token.IsColonFree ⟨filter.name, args⟩ := ⟨hname, hargs⟩
  rw [← Token.parse_text hfree, Token.text_eq_intercalate]

/-- **Every entry can be called from a token.** Whatever was done before, an entry is stored and
found under its own name, which a token can hold, and the text of its name and of arguments without
colons is read as a call of just this entry with just these arguments. -/
theorem run_entries_addressable (actions : List Action) (registry : Registry)
    (hmem : registry ∈ run actions) :
    (∀ entry ∈ registry.entries, entry.1 = entry.2.name) ∧
      (∀ filter ∈ registry.filters, registry.get? filter.name = some filter ∧ filter.IsValid) ∧
      (∀ name filter, registry.get? name = some filter →
        filter ∈ registry.filters ∧ filter.name = name) ∧
      registry.names.Pairwise (· < ·) ∧
      (∀ name, name ∈ registry.names ↔ ∃ filter, registry.get? name = some filter) ∧
      (∀ name, name ∈ registry.names ↔ registry.contains name = true) ∧
      registry.names.length = registry.size ∧
      (∀ filter error after,
        (registerInPlace filter).run.run registry = (.error error, after) → after = registry) ∧
      ∀ name filter args, registry.get? name = some filter → (∀ arg ∈ args, ':' ∉ arg.toList) →
        let token := Token.parse (":".intercalate (name :: args))
        registry.get? token.name = some filter ∧ token.args = args := by
  have hwell : registry.WellFormed := wellFormed_of_mem_run registry hmem
  refine ⟨hwell.named, ?_, ?_, hwell.sorted_names, ?_, ?_, List.length_map Prod.fst, ?_, ?_⟩
  · intro filter hfilter
    exact ⟨hwell.mem_filters_iff.mp hfilter, hwell.valid filter hfilter⟩
  · intro name filter hget
    exact hwell.get?_eq_some_iff.mp hget
  · intro name
    exact mem_names_iff
  · intro name
    exact contains_eq_true_iff.symm
  · intro filter error after hrun
    exact eq_of_registerInPlace_eq_error hrun
  · intro name filter args hget hargs
    have hparse := hwell.parse_intercalate hget hargs
    intro token
    have htoken : token = ⟨name, args⟩ := hparse
    rw [htoken]
    exact ⟨hget, rfl⟩

theorem run_entries_addressable_second_name :
    let shout : Filter := ⟨"shout", .atLeast 0, fun input _ _ => .ok input, .value⟩
    let yell : Filter := shout.withName "yell"
    let loud : Filter := shout.withName "too loud"
    let registry : Registry := ⟨[("shout", shout), ("yell", yell)]⟩
    let token := Token.parse "yell::now"
    registry ∈ run [.create, .register 0 shout, .withName 0 "shout" "yell", .register 0 loud] ∧
      (registerInPlace loud).run.run registry = (.error ⟨"too loud", .blankInName⟩, registry) ∧
      registry.get? token.name = some yell ∧ token.args = ["", "now"] := by
  intro shout yell loud registry token
  have hrun : run [.create, .register 0 shout, .withName 0 "shout" "yell", .register 0 loud] =
      [registry] := by
    simp only [shout, yell, loud, registry]
    rfl
  have hmem := List.mem_singleton.mpr (Eq.refl registry)
  rw [← hrun] at hmem
  have hrefused :
      (registerInPlace loud).run.run registry = (.error ⟨"too loud", .blankInName⟩, registry) := by
    simp only [shout, yell, loud, registry]
    rfl
  have hget : registry.get? "yell" = some yell := rfl
  have hargs : ∀ arg ∈ ["", "now"], ':' ∉ arg.toList := by decide
  obtain ⟨-, -, -, -, -, -, -, -, htoken⟩ := run_entries_addressable _ registry hmem
  exact ⟨hmem, hrefused, htoken "yell" yell ["", "now"] hget hargs⟩

end Reshape.Registry
