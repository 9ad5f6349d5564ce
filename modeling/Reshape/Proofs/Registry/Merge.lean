import Reshape.Proofs.Registry.Run

/-!
# Merging filters over a registry

A well-formed registry filled again from its own entries is the same registry, whatever the order in
which they come. Merging filters over it therefore registers them in a copy of it, so that two
merges one after the other are one merge of both lists.
-/

namespace Reshape.Registry

section WellFormed

variable {registry : Registry} {order : List Filter}

theorem WellFormed.lastNamed?_of_perm (hregistry : registry.WellFormed)
    (horder : order.Perm registry.filters) (name : String) :
    Filter.lastNamed? name order = registry.get? name := by
  have hforward : ∀ filter, Filter.lastNamed? name order = some filter →
      registry.get? name = some filter := by
    intro filter hlast
    obtain ⟨hmem, hname⟩ := Filter.mem_of_lastNamed?_eq_some hlast
    exact hregistry.get?_eq_some_iff.mpr ⟨horder.subset hmem, hname⟩
  cases hget : registry.get? name with
  | none =>
      cases hlast : Filter.lastNamed? name order with
      | none => rfl
      | some filter => rw [hforward filter hlast] at hget; exact hget
  | some filter =>
      -- Names are distinct, so that the last entry of a name is the only one, in any order.
      obtain ⟨hmem, rfl⟩ := hregistry.get?_eq_some_iff.mp hget
      obtain ⟨last, hlast⟩ := Filter.exists_lastNamed?_eq_some (horder.symm.subset hmem)
      rw [hlast, ← hforward last hlast, hget]

theorem WellFormed.registerAll_of_perm (hregistry : registry.WellFormed)
    (horder : order.Perm registry.filters) : empty.registerAll order = .ok registry := by
  have hvalid : ∀ filter ∈ order, filter.IsValid := fun filter hmem =>
    hregistry.valid filter (horder.subset hmem)
  have hsame : order.foldl Registry.insert empty = registry := by
    apply (wellFormed_empty.foldl_insert hvalid).ext hregistry
    intro name
    rw [get?_foldl_insert, get?_empty, Option.or_none, hregistry.lastNamed?_of_perm horder]
  exact registerAll_eq_ok_iff.mpr ⟨hvalid, hsame⟩

theorem WellFormed.build_of_perm (hregistry : registry.WellFormed)
    (horder : order.Perm registry.filters) (custom : List Filter) :
    build order custom = registry.registerAll custom := by
  rw [build, hregistry.registerAll_of_perm horder]
  rfl

theorem WellFormed.merged_eq_registerAll (hregistry : registry.WellFormed) (custom : List Filter) :
    registry.merged custom = registry.registerAll custom :=
  hregistry.build_of_perm (List.Perm.refl registry.filters) custom

end WellFormed

theorem exists_registerAll_eq_ok_iff {registry : Registry} {filters : List Filter} :
    (∃ result, registry.registerAll filters = .ok result) ↔
      ∀ filter ∈ filters, filter.IsValid := by
  simp only [registerAll_eq_ok_iff, exists_and_left, exists_eq', and_true]

theorem WellFormed.build_append {registry : Registry} {order custom more : List Filter}
    (hregistry : registry.WellFormed) (horder : order.Perm registry.filters)
    (hvalid : ∀ filter ∈ custom ++ more, filter.IsValid) :
    ∃ first both, build order custom = .ok first ∧ build order (custom ++ more) = .ok both ∧
      ∀ next, next.Perm first.filters → build next more = .ok both := by
  obtain ⟨both, hboth⟩ := exists_registerAll_eq_ok_iff.mpr hvalid
  have hsplit : registry.registerAll (custom ++ more) = .ok both := hboth
  rw [registerAll_append] at hsplit
  obtain ⟨first, hfirst, hmore⟩ := bind_eq_ok_iff.mp hsplit
  refine ⟨first, both, ?_, ?_, ?_⟩
  · rw [hregistry.build_of_perm horder, hfirst]
  · rw [hregistry.build_of_perm horder, hboth]
  · intro next hnext
    rw [(hregistry.registerAll hfirst).build_of_perm hnext, hmore]

/-- **Merging is a union in which the last entry of a name wins.** A merge over a registry in use,
read in any order, fails for the new entries only, leaves the registry as it is, and two merges are
one merge of both lists. -/
theorem build_and_merge_last_wins :
    (∀ defaults custom : List Filter,
      ((∃ registry, build defaults custom = .ok registry) ↔
        ∀ filter ∈ defaults ++ custom, filter.IsValid) ∧
      (∀ error, build defaults custom = .error error ↔ error.IsFirstIn (defaults ++ custom)) ∧
      ∀ registry, build defaults custom = .ok registry → ∀ name,
        registry.get? name =
          (Filter.lastNamed? name custom).or (Filter.lastNamed? name defaults)) ∧
    ∀ (actions : List Action) (position : Nat) (registry : Registry),
      (run actions)[position]? = some registry →
      ∀ order custom : List Filter, order.Perm registry.filters →
        build order custom = registry.merged custom ∧
        ((∃ merged, build order custom = .ok merged) ↔ ∀ filter ∈ custom, filter.IsValid) ∧
        (∀ error, build order custom = .error error ↔ error.IsFirstIn custom) ∧
        (∀ merged, build order custom = .ok merged → ∀ name,
          merged.get? name = (Filter.lastNamed? name custom).or (registry.get? name)) ∧
        (run (actions ++ [.merge position custom]))[position]? = some registry ∧
        ∀ more, (∀ filter ∈ custom ++ more, filter.IsValid) →
          ∃ first both, build order custom = .ok first ∧ build order (custom ++ more) = .ok both ∧
            ∀ next, next.Perm first.filters → build next more = .ok both := by
  constructor
  · intro defaults custom
    refine ⟨?_, ?_, fun registry => get?_of_build_eq_ok⟩
    · rw [build_eq_registerAll]
      exact exists_registerAll_eq_ok_iff
    · intro error
      rw [build_eq_registerAll]
      exact registerAll_eq_error_iff
  · intro actions position registry hregistry order custom horder
    have hwell : registry.WellFormed :=
      wellFormed_of_mem_run registry (List.mem_of_getElem? hregistry)
    have hbuild : build order custom = registry.registerAll custom :=
      hwell.build_of_perm horder custom
    refine ⟨?_, ?_, ?_, ?_, ?_, fun more => hwell.build_append horder⟩
    · rw [hbuild, hwell.merged_eq_registerAll]
    · rw [hbuild]
      exact exists_registerAll_eq_ok_iff
    · intro error
      rw [hbuild]
      exact registerAll_eq_error_iff
    · intro merged hmerged name
      rw [hbuild] at hmerged
      obtain ⟨-, rfl⟩ := registerAll_eq_ok_iff.mp hmerged
      exact get?_foldl_insert registry custom name
    · rw [run_append_singleton]
      exact getElem?_step hregistry (Option.some_ne_none position).symm

theorem build_and_merge_last_wins_backwards :
    let one : Filter := ⟨"one", .none, fun input _ _ => .ok input, .value⟩
    let two : Filter := one.withName "two"
    let late : Filter := one.withKind .path
    let registry : Registry := ⟨[("one", late), ("two", two)]⟩
    (run [.build [one, two] [two, late]])[0]? = some registry ∧ [two, late].Perm registry.filters ∧
      (∃ merged, build [two, late] [one] = .ok merged ∧ merged.get? "one" = some one ∧
        merged.get? "two" = some two) ∧
      ∃ first both, build [two, late] [one] = .ok first ∧ build [two, late] [one, late] = .ok both ∧
        ∀ next, next.Perm first.filters → build next [late] = .ok both := by
  intro one two late registry
  have hrun : (run [.build [one, two] [two, late]])[0]? = some registry := by
    simp only [one, two, late, registry]
    rfl
  have horder : [two, late].Perm registry.filters := List.Perm.swap late two []
  have hone : one.IsValid := by
    apply Filter.fault?_eq_none_iff.mp
    simp only [one]
    rfl
  have hlate : late.IsValid :=
    ⟨hone.name_ne_empty, hone.no_colon, hone.no_blank, hone.min_le_max⟩
  have hmerge := build_and_merge_last_wins.2 _ 0 registry hrun [two, late] [one] horder
  obtain ⟨-, hok, -, hget, -, htwice⟩ := hmerge
  obtain ⟨merged, hmerged⟩ := hok.mpr (List.forall_mem_singleton.mpr hone)
  refine ⟨hrun, horder, ⟨merged, hmerged, ?_, ?_⟩, htwice [late] (by simp [hone, hlate])⟩
  · rw [hget merged hmerged "one"]
    rfl
  · rw [hget merged hmerged "two"]
    rfl

end Reshape.Registry
