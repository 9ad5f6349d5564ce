import Mathlib.Data.List.Sort
import Reshape.Proofs.Fields
import Reshape.Registry

/-!
# What a registry looks up

A filter is valid when a token can name it and some number of arguments suits it. A registry is
well-formed when it holds valid filters only, each under its own name, in the strict order of the
names. Such a registry is no more than its lookups: two that look up the same are equal, in whatever
order they were filled.
-/

namespace Reshape

namespace Filter

/-- A token can name the filter, and there is a number of arguments that it takes. -/
structure IsValid (filter : Filter) : Prop where
  name_ne_empty : filter.name ≠ ""
  no_colon : ':' ∉ filter.name.toList
  no_blank : ∀ c ∈ filter.name.toList, Text.isBlank c = false
  min_le_max : ∀ max, filter.arity.max = some max → filter.arity.min ≤ max

theorem fault?_eq_none_iff {filter : Filter} : filter.fault? = none ↔ filter.IsValid := by
  constructor
  · intro hfault
    simp only [fault?] at hfault
    split_ifs at hfault with hname hcolon hblank
    have harity : ∀ max, filter.arity.max = some max → filter.arity.min ≤ max := by
      intro max hmax
      rw [hmax] at hfault
      by_contra hlt
      rw [Nat.not_le] at hlt
      simp [hlt] at hfault
    exact ⟨by simpa using hname, by simpa using hcolon, by simpa using hblank, harity⟩
  · intro hvalid
    have hname : filter.name.toList.isEmpty = false := by simpa using hvalid.name_ne_empty
    have hcolon : filter.name.toList.contains ':' = false := by simpa using hvalid.no_colon
    have hblank : filter.name.toList.any Text.isBlank = false := by simpa using hvalid.no_blank
    simp only [fault?, hname, hcolon, hblank]
    cases hmax : filter.arity.max with
    | none => rfl
    | some max => simpa using hvalid.min_le_max max hmax

theorem isValid_of_mem_library : ∀ filter ∈ library, filter.IsValid := by
  simp only [← fault?_eq_none_iff]
  decide

end Filter

namespace Registry

/-! ### An entry put in its place -/

section Place

variable {name : String} {filter : Filter} {entry : String × Filter}
  {entries : List (String × Filter)}

theorem mem_of_mem_place (hmem : entry ∈ place name filter entries) :
    entry = (name, filter) ∨ entry ∈ entries := by
  induction entries with
  | nil => simpa [place] using hmem
  | cons head rest ih =>
      rw [place] at hmem
      split_ifs at hmem <;> grind

theorem sorted_place (hsorted : entries.Pairwise (·.1 < ·.1)) :
    (place name filter entries).Pairwise (·.1 < ·.1) := by
  induction entries with
  | nil => simp [place]
  | cons head rest ih =>
      obtain ⟨hhead, hrest⟩ := List.pairwise_cons.mp hsorted
      rw [place]
      split_ifs with heq hlt
      · refine List.pairwise_cons.mpr ⟨?_, hrest⟩
        rwa [heq]
      · refine List.pairwise_cons.mpr ⟨?_, hsorted⟩
        intro later hlater
        rcases List.mem_cons.mp hlater with rfl | hlater
        · exact hlt
        · exact String.lt_trans hlt (hhead later hlater)
      · have hgt : head.1 < name := Std.lt_of_le_of_ne (String.not_lt.mp hlt) (Ne.symm heq)
        refine List.pairwise_cons.mpr ⟨?_, ih hrest⟩
        intro later hlater
        rcases mem_of_mem_place hlater with rfl | hlater
        · exact hgt
        · exact hhead later hlater

theorem lookup_place (other : String) :
    (place name filter entries).lookup other =
      if other = name then some filter else entries.lookup other := by
  induction entries with
  | nil => exact Fields.get?_cons other name filter []
  | cons head rest ih =>
      have hcons : ∀ (entry : String × Filter) later, (entry :: later).lookup other =
          if other = entry.1 then some entry.2 else later.lookup other :=
        fun entry => Fields.get?_cons other entry.1 entry.2
      rw [place]
      by_cases hname : other = name
      · rw [if_pos hname] at ih ⊢
        split_ifs with heq hlt
        · rw [hcons, if_pos hname]
        · rw [hcons, if_pos hname]
        · rw [hcons, if_neg (hname ▸ heq), ih]
      · rw [if_neg hname] at ih ⊢
        split_ifs with heq hlt
        · rw [hcons, hcons, if_neg hname, if_neg (heq ▸ hname)]
        · rw [hcons, if_neg hname]
        · rw [hcons, hcons, ih]

end Place

/-! ### Registries filled with valid filters -/

/-- A registry as the operations keep it. -/
structure WellFormed (registry : Registry) : Prop where
  sorted : registry.entries.Pairwise (·.1 < ·.1)
  named : ∀ entry ∈ registry.entries, entry.1 = entry.2.name
  valid : ∀ filter ∈ registry.filters, filter.IsValid

variable {registry other : Registry} {filter : Filter} {filters : List Filter} {name : String}

@[simp]
theorem get?_empty (name : String) : empty.get? name = none := rfl

theorem get?_insert (registry : Registry) (filter : Filter) (name : String) :
    (registry.insert filter).get? name =
      if filter.name = name then some filter else registry.get? name :=
  (lookup_place name).trans (if_congr eq_comm rfl rfl)

theorem mem_filters_iff :
    filter ∈ registry.filters ↔ ∃ name, (name, filter) ∈ registry.entries := by
  simp [filters]

theorem wellFormed_empty : empty.WellFormed :=
  ⟨List.Pairwise.nil, nofun, nofun⟩

theorem WellFormed.insert (hregistry : registry.WellFormed) (hfilter : filter.IsValid) :
    (registry.insert filter).WellFormed := by
  refine ⟨sorted_place hregistry.sorted, fun entry hentry => ?_, fun other hother => ?_⟩
  · rcases mem_of_mem_place hentry with rfl | hentry
    · rfl
    · exact hregistry.named entry hentry
  · obtain ⟨name, hentry⟩ := mem_filters_iff.mp hother
    rcases mem_of_mem_place hentry with hnew | hentry
    · rwa [(Prod.mk.inj hnew).2]
    · exact hregistry.valid other (mem_filters_iff.mpr ⟨name, hentry⟩)

theorem WellFormed.foldl_insert (hregistry : registry.WellFormed)
    (hfilters : ∀ filter ∈ filters, filter.IsValid) :
    (filters.foldl Registry.insert registry).WellFormed := by
  induction filters generalizing registry with
  | nil => exact hregistry
  | cons filter rest ih =>
      rw [List.forall_mem_cons] at hfilters
      exact ih (hregistry.insert hfilters.1) hfilters.2

theorem wellFormed_standard : standard.WellFormed :=
  wellFormed_empty.foldl_insert Filter.isValid_of_mem_library

/-! ### Lookups -/

theorem WellFormed.sorted_names (hregistry : registry.WellFormed) :
    registry.names.Pairwise (· < ·) :=
  List.pairwise_map.mpr hregistry.sorted

theorem WellFormed.nodup_names (hregistry : registry.WellFormed) : registry.names.Nodup :=
  hregistry.sorted_names.imp fun hlt => Std.ne_of_lt hlt

theorem WellFormed.mem_entries_iff (hregistry : registry.WellFormed) :
    (name, filter) ∈ registry.entries ↔ registry.get? name = some filter :=
  ⟨Fields.get?_of_mem hregistry.nodup_names, Fields.mem_of_get?⟩

theorem WellFormed.get?_eq_some_iff (hregistry : registry.WellFormed) :
    registry.get? name = some filter ↔ filter ∈ registry.filters ∧ filter.name = name := by
  rw [← hregistry.mem_entries_iff, mem_filters_iff]
  constructor
  · intro hentry
    exact ⟨⟨name, hentry⟩, (hregistry.named _ hentry).symm⟩
  · rintro ⟨⟨key, hentry⟩, rfl⟩
    have hkey : key = filter.name := hregistry.named _ hentry
    exact hkey ▸ hentry

theorem WellFormed.mem_filters_iff (hregistry : registry.WellFormed) :
    filter ∈ registry.filters ↔ registry.get? filter.name = some filter := by
  rw [hregistry.get?_eq_some_iff]
  exact ⟨fun hmem => ⟨hmem, rfl⟩, And.left⟩

theorem WellFormed.ext (hregistry : registry.WellFormed) (hother : other.WellFormed)
    (hget : ∀ name, registry.get? name = other.get? name) : registry = other := by
  have : Std.Irrefl fun left right : String × Filter => left.1 < right.1 :=
    ⟨fun entry => String.lt_irrefl entry.1⟩
  have : Std.Antisymm fun left right : String × Filter => left.1 < right.1 :=
    ⟨fun _ _ hlt hgt => absurd hgt (String.lt_asymm hlt)⟩
  have hentries : registry.entries = other.entries := by
    apply hregistry.sorted.eq_of_mem_iff hother.sorted
    rintro ⟨name, filter⟩
    rw [hregistry.mem_entries_iff, hother.mem_entries_iff, hget]
  cases registry
  cases other
  rw [mk.injEq]
  exact hentries

theorem contains_eq_true_iff : registry.contains name = true ↔ name ∈ registry.names := by
  rw [contains, get?, List.lookup_isSome_iff, names, List.mem_map]
  simp only [beq_iff_eq, @eq_comm _ name]

theorem mem_names_iff : name ∈ registry.names ↔ ∃ filter, registry.get? name = some filter := by
  rw [← contains_eq_true_iff, contains, Option.isSome_iff_exists]

end Registry

end Reshape
