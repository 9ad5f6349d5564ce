import Reshape.Proofs.Except
import Reshape.Proofs.Registry.Lookup

/-!
# Registries filled from lists

Registering a list of filters fails with the first of them that is not valid, whatever is in the
registry already. Where all are valid, each name finds the last filter of the list that has it, and
otherwise what it found before.
-/

namespace Reshape

/-- The last of the filters that have a name. -/
def Filter.lastNamed? (name : String) (filters : List Filter) : Option Filter :=
  (filters.filter (·.name == name)).getLast?

/-- The error is about the first of the filters that is not valid. -/
def RegistrationError.IsFirstIn (error : RegistrationError) (filters : List Filter) : Prop :=
  ∃ before filter after, filters = before ++ filter :: after ∧
    (∀ earlier ∈ before, earlier.IsValid) ∧
    error.name = filter.name ∧ filter.fault? = some error.fault

namespace Filter

theorem lastNamed?_append (name : String) (filters more : List Filter) :
    lastNamed? name (filters ++ more) = (lastNamed? name more).or (lastNamed? name filters) := by
  rw [lastNamed?, List.filter_append, List.getLast?_append]
  rfl

theorem lastNamed?_singleton (name : String) (filter : Filter) :
    lastNamed? name [filter] = if filter.name = name then some filter else none := by
  by_cases hname : filter.name = name <;> simp [lastNamed?, hname]

theorem lastNamed?_cons (name : String) (filter : Filter) (filters : List Filter) :
    lastNamed? name (filter :: filters) =
      (lastNamed? name filters).or (if filter.name = name then some filter else none) := by
  rw [← List.singleton_append, lastNamed?_append, lastNamed?_singleton]

theorem lastNamed?_eq_none_iff {name : String} {filters : List Filter} :
    lastNamed? name filters = none ↔ ∀ filter ∈ filters, filter.name ≠ name := by
  simp [lastNamed?]

theorem mem_of_lastNamed?_eq_some {name : String} {filters : List Filter} {filter : Filter}
    (hlast : lastNamed? name filters = some filter) : filter ∈ filters ∧ filter.name = name := by
  have hmem := List.mem_filter.mp (List.mem_of_getLast? hlast)
  exact ⟨hmem.1, by simpa using hmem.2⟩

theorem exists_lastNamed?_eq_some {filters : List Filter} {filter : Filter}
    (hmem : filter ∈ filters) : ∃ last, lastNamed? filter.name filters = some last := by
  have hfilter : filter ∈ filters.filter (·.name == filter.name) := by simpa using hmem
  exact ⟨_, List.getLast?_eq_some_getLast (List.ne_nil_of_mem hfilter)⟩

end Filter

namespace Registry

variable {registry result : Registry} {filter : Filter} {filters : List Filter}
  {error : RegistrationError}

theorem register_eq_ok_iff :
    registry.register filter = .ok result ↔ filter.IsValid ∧ registry.insert filter = result := by
  rw [register, ← Filter.fault?_eq_none_iff]
  cases filter.fault? <;> simp

theorem register_eq_error_iff :
    registry.register filter = .error error ↔
      error.name = filter.name ∧ filter.fault? = some error.fault := by
  rw [register]
  cases filter.fault? with
  | none => simp
  | some fault =>
      cases error
      simp [eq_comm]

theorem registerAll_append (registry : Registry) (filters more : List Filter) :
    registry.registerAll (filters ++ more) =
      registry.registerAll filters >>= fun next => next.registerAll more :=
  List.foldlM_append

theorem registerAll_eq_ok_iff :
    registry.registerAll filters = .ok result ↔
      (∀ filter ∈ filters, filter.IsValid) ∧ filters.foldl insert registry = result := by
  rw [registerAll]
  induction filters generalizing registry with
  | nil => simp [pure, Except.pure]
  | cons filter rest ih =>
      rw [List.foldlM_cons, bind_eq_ok_iff, List.forall_mem_cons, List.foldl_cons, and_assoc, ← ih]
      constructor
      · rintro ⟨next, hfirst, hrest⟩
        obtain ⟨hvalid, rfl⟩ := register_eq_ok_iff.mp hfirst
        exact ⟨hvalid, hrest⟩
      · rintro ⟨hvalid, hrest⟩
        exact ⟨registry.insert filter, register_eq_ok_iff.mpr ⟨hvalid, rfl⟩, hrest⟩

theorem registerAll_eq_error_iff :
    registry.registerAll filters = .error error ↔ error.IsFirstIn filters := by
  rw [registerAll, foldlM_eq_error_iff, RegistrationError.IsFirstIn]
  constructor
  · rintro ⟨before, filter, after, middle, hfilters, hbefore, hfilter⟩
    have hvalid := (registerAll_eq_ok_iff.mp hbefore).1
    exact ⟨before, filter, after, hfilters, hvalid, register_eq_error_iff.mp hfilter⟩
  · rintro ⟨before, filter, after, hfilters, hvalid, hfilter⟩
    have hbefore : registry.registerAll before = .ok (before.foldl insert registry) :=
      registerAll_eq_ok_iff.mpr ⟨hvalid, rfl⟩
    exact ⟨before, filter, after, _, hfilters, hbefore, register_eq_error_iff.mpr hfilter⟩

theorem get?_foldl_insert (registry : Registry) (filters : List Filter) (name : String) :
    (filters.foldl insert registry).get? name =
      (Filter.lastNamed? name filters).or (registry.get? name) := by
  induction filters generalizing registry with
  | nil => rfl
  | cons filter rest ih =>
      rw [List.foldl_cons, ih, get?_insert, Filter.lastNamed?_cons, Option.or_assoc]
      split_ifs <;> simp

theorem WellFormed.registerAll (hregistry : registry.WellFormed)
    (hresult : registry.registerAll filters = .ok result) : result.WellFormed := by
  obtain ⟨hvalid, rfl⟩ := registerAll_eq_ok_iff.mp hresult
  exact hregistry.foldl_insert hvalid

theorem build_eq_registerAll (defaults custom : List Filter) :
    build defaults custom = empty.registerAll (defaults ++ custom) :=
  (registerAll_append empty defaults custom).symm

theorem get?_of_build_eq_ok {defaults custom : List Filter}
    (hbuild : build defaults custom = .ok result) (name : String) :
    result.get? name =
      (Filter.lastNamed? name custom).or (Filter.lastNamed? name defaults) := by
  rw [build_eq_registerAll] at hbuild
  obtain ⟨-, rfl⟩ := registerAll_eq_ok_iff.mp hbuild
  rw [get?_foldl_insert, Filter.lastNamed?_append, get?_empty, Option.or_none]

end Registry

end Reshape
