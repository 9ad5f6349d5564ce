import Reshape.Mapper
import Reshape.Proofs.Evaluator.Depth
import Reshape.Proofs.Registry.Build

/-!
# The filters that a mapping names

The evaluator looks filters up by the names of tokens and in no other way. Two registries with the
same entries under these names give the same outcome, and of custom filters only the last of each of
these names counts.
-/

namespace Reshape

namespace Spec

/-- A token of the mapping, at any depth, has the name. -/
def Names (spec : Spec) (name : String) : Prop :=
  ∃ token : Token, Occurs (.filter token) spec ∧ token.name = name

variable {name : String}

theorem names_filter (token : Token) : (Spec.filter token).Names token.name :=
  ⟨token, .here, rfl⟩

theorem Names.sequence {step : Spec} {steps : List Spec} (hmem : step ∈ steps)
    (hnames : step.Names name) : (Spec.sequence steps).Names name := by
  obtain ⟨token, hoccurs, hname⟩ := hnames
  exact ⟨token, .step hmem hoccurs, hname⟩

theorem Names.fields {entry : String × Spec} {entries : List (String × Spec)}
    (hmem : entry ∈ entries) (hnames : entry.2.Names name) : (Spec.fields entries).Names name := by
  obtain ⟨token, hoccurs, hname⟩ := hnames
  exact ⟨token, .entry hmem hoccurs, hname⟩

end Spec

/-- The registries hold the same entry, or none, under every name in the mapping. -/
def Registry.AgreeOn (spec : Spec) (first second : Registry) : Prop :=
  ∀ name, spec.Names name → first.get? name = second.get? name

namespace Evaluator

variable {first second : Registry} {bound depth : Nat} {source : Value} {current : Option Value}

theorem runToken_congr {token : Token} (hget : first.get? token.name = second.get? token.name) :
    runToken first source current token = runToken second source current token := by
  rw [runToken, runToken, hget]

/-- Past the bound registries have no part in the outcome, so that only nodes within it need an
argument. -/
theorem run_congr_of_within {spec : Spec}
    (hwithin : depth ≤ bound →
      run ⟨first, bound⟩ source current depth spec =
        run ⟨second, bound⟩ source current depth spec) :
    run ⟨first, bound⟩ source current depth spec =
      run ⟨second, bound⟩ source current depth spec := by
  by_cases hdepth : depth ≤ bound
  · exact hwithin hdepth
  · rw [run_of_lt spec (by omega), run_of_lt spec (by omega)]

theorem run_congr {spec : Spec} (hagree : Registry.AgreeOn spec first second)
    (current : Option Value) (depth : Nat) :
    run ⟨first, bound⟩ source current depth spec =
      run ⟨second, bound⟩ source current depth spec := by
  induction spec generalizing current depth with
  | filter token =>
      refine run_congr_of_within fun hdepth => ?_
      rw [run_filter token hdepth, run_filter token hdepth]
      exact runToken_congr (hagree token.name (Spec.names_filter token))
  | sequence steps ih =>
      have hstep : ∀ step ∈ steps, ∀ current,
          run ⟨first, bound⟩ source current (depth + 1) step =
            run ⟨second, bound⟩ source current (depth + 1) step := by
        intro step hmem current
        apply ih step hmem
        exact fun name hnames => hagree name (hnames.sequence hmem)
      refine run_congr_of_within fun hdepth => ?_
      cases steps with
      | nil => rw [run_sequence_nil hdepth, run_sequence_nil hdepth]
      | cons step rest =>
          rw [List.forall_mem_cons] at hstep
          rw [run_sequence_cons step rest hdepth, run_sequence_cons step rest hdepth, hstep.1]
          refine bind_congr fun output => ?_
          exact foldlM_congr (fun step hmem output => hstep.2 step hmem (some output)) output
  | fields entries ih =>
      refine run_congr_of_within fun hdepth => ?_
      rw [run_fields entries hdepth, run_fields entries hdepth]
      congr 1
      refine foldlM_congr (fun entry hmem fields => ?_) []
      rw [ih entry hmem fun name hnames => hagree name (hnames.fields hmem)]
  | literal value =>
      refine run_congr_of_within fun hdepth => ?_
      rw [run_literal value hdepth, run_literal value hdepth]

theorem evaluate_congr {spec : Spec} (hagree : Registry.AgreeOn spec first second) (source : Value)
    (maxDepth : Nat) :
    evaluate ⟨first, maxDepth⟩ source spec = evaluate ⟨second, maxDepth⟩ source spec :=
  run_congr hagree none 1

end Evaluator

/-! ### Mappers -/

namespace Mapper

variable {custom : List Filter}

theorem withFilters_of_build {registry : Registry}
    (hbuild : Registry.build Filter.library custom = .ok registry) :
    withFilters custom = .ok ⟨registry, .standard⟩ := by
  unfold withFilters
  rw [hbuild]

theorem build_library (hvalid : ∀ filter ∈ custom, filter.IsValid) :
    Registry.build Filter.library custom =
      .ok ((Filter.library ++ custom).foldl Registry.insert .empty) := by
  rw [Registry.build_eq_registerAll]
  have hall : ∀ filter ∈ Filter.library ++ custom, filter.IsValid :=
    List.forall_mem_append.mpr ⟨Filter.isValid_of_mem_library, hvalid⟩
  exact Registry.registerAll_eq_ok_iff.mpr ⟨hall, rfl⟩

/-- Valid custom filters make a mapper, whose lookups give the last of them by each name. -/
theorem exists_withFilters_eq_ok (hvalid : ∀ filter ∈ custom, filter.IsValid) :
    ∃ registry, withFilters custom = .ok ⟨registry, .standard⟩ ∧
      ∀ name, registry.get? name =
        (Filter.lastNamed? name custom).or (Filter.lastNamed? name Filter.library) :=
  ⟨_, withFilters_of_build (build_library hvalid),
    Registry.get?_of_build_eq_ok (build_library hvalid)⟩

theorem withFilters_nil : withFilters [] = .ok standard := by
  have hbuild := build_library (List.forall_mem_nil Filter.IsValid)
  rw [List.append_nil] at hbuild
  exact withFilters_of_build hbuild

end Mapper

theorem transform_congr {custom others : List Filter} {spec : Spec}
    (hcustom : ∀ filter ∈ custom, filter.IsValid) (hothers : ∀ filter ∈ others, filter.IsValid)
    (hlast : ∀ name, spec.Names name →
      Filter.lastNamed? name custom = Filter.lastNamed? name others) (source : Value) :
    transform source spec custom = transform source spec others := by
  obtain ⟨first, hfirst, hgetFirst⟩ := Mapper.exists_withFilters_eq_ok hcustom
  obtain ⟨second, hsecond, hgetSecond⟩ := Mapper.exists_withFilters_eq_ok hothers
  have hagree : Registry.AgreeOn spec first second := by
    intro name hnames
    rw [hgetFirst, hgetSecond, hlast name hnames]
  rw [transform, transform, hfirst, hsecond]
  exact Evaluator.evaluate_congr hagree source Config.standard.maxDepth

/-- **Only the filters that a mapping names have a part in its outcome.** -/
theorem outcome_of_named_filters (spec : Spec) (source : Value) :
    (∀ maxDepth first second, Registry.AgreeOn spec first second →
      Evaluator.evaluate ⟨first, maxDepth⟩ source spec =
        Evaluator.evaluate ⟨second, maxDepth⟩ source spec) ∧
    transform source spec [] = Mapper.standard.transform source spec ∧
    (∀ custom : List Filter, (∀ filter ∈ custom, filter.IsValid) →
      (∀ filter ∈ custom, ¬ spec.Names filter.name) →
      transform source spec custom = transform source spec []) ∧
    (∀ custom others : List Filter, (∀ filter ∈ custom, filter.IsValid) →
      (∀ filter ∈ others, filter.IsValid) →
      (∀ name, spec.Names name →
        Filter.lastNamed? name custom = Filter.lastNamed? name others) →
      transform source spec custom = transform source spec others) := by
  refine ⟨fun maxDepth first second hagree => Evaluator.evaluate_congr hagree source maxDepth,
    ?_, fun custom hvalid habsent => ?_,
    fun custom others hcustom hothers hlast => transform_congr hcustom hothers hlast source⟩
  · rw [transform, Mapper.withFilters_nil]
    rfl
  · apply transform_congr hvalid (by simp)
    intro name hnames
    have hnone : Filter.lastNamed? name custom = none := by
      rw [Filter.lastNamed?_eq_none_iff]
      rintro filter hmem rfl
      exact habsent filter hmem hnames
    rw [hnone]
    rfl

/-- A filter that the mapping does not name is replaced, and one that it does name is given twice: the
later of these two decides, alone as well. -/
theorem outcome_of_named_filters_given_twice :
    let twice (run : Value → Value → List Arg → Outcome) : Filter := ⟨"twice", .none, run, .value⟩
    let pair := twice fun input _ _ => .ok (.array [input, input])
    let failing := twice fun _ _ _ => .error (.custom "replaced")
    let length : Filter := ⟨"length", .none, fun _ _ _ => .ok .null, .value⟩
    let spec : Spec :=
      .sequence [.filter ⟨"identity", []⟩, .fields [("n", .filter ⟨"twice", []⟩)]]
    let identity : Filter := ⟨"identity", .none, Filter.identity, .value⟩
    let small : Registry := ⟨[("identity", identity), ("twice", pair)]⟩
    let large : Registry := ⟨[("identity", identity), ("length", length), ("twice", pair)]⟩
    (∀ filter ∈ [failing, length, pair], filter.IsValid) ∧ ¬ spec.Names length.name ∧
      Registry.AgreeOn spec large small ∧
      Evaluator.evaluate ⟨large, 3⟩ (.bool true) spec =
        .ok (.object [("n", .array [.bool true, .bool true])]) ∧
      transform (.bool true) spec [length] = transform (.bool true) spec [] ∧
      transform (.bool true) spec [failing, length, pair] = transform (.bool true) spec [pair] := by
  intro twice pair failing length spec identity small large
  have hvalid : ∀ filter ∈ [failing, length, pair], filter.IsValid := by
    simp only [← Filter.fault?_eq_none_iff]
    decide
  have hsub : ∀ filter, filter = length ∨ filter = pair → filter.IsValid := by
    rintro filter (rfl | rfl) <;> exact hvalid _ (by simp)
  have hnames : ∀ name, spec.Names name → name = "identity" ∨ name = "twice" := by
    rintro name ⟨token, hoccurs, rfl⟩
    have htoken : token = ⟨"identity", []⟩ ∨ token = ⟨"twice", []⟩ := by
      simpa [spec] using hoccurs
    rcases htoken with rfl | rfl
    · exact Or.inl rfl
    · exact Or.inr rfl
  have habsent : ¬ spec.Names length.name := fun h => by simpa [length] using hnames _ h
  have hagree : Registry.AgreeOn spec large small := by
    intro name hname
    rcases hnames name hname with rfl | rfl <;> rfl
  have hsame : ∀ name, spec.Names name →
      Filter.lastNamed? name [failing, length, pair] = Filter.lastNamed? name [pair] := by
    intro name hname
    rcases hnames name hname with rfl | rfl <;> rfl
  have hsmall : Evaluator.evaluate ⟨small, 3⟩ (.bool true) spec =
      .ok (.object [("n", .array [.bool true, .bool true])]) := rfl
  obtain ⟨hregistries, -, hwithout, hlast⟩ := outcome_of_named_filters spec (.bool true)
  refine ⟨hvalid, habsent, hagree, (hregistries 3 large small hagree).trans hsmall,
    hwithout [length] ?_ ?_, hlast _ [pair] hvalid ?_ hsame⟩
  · exact List.forall_mem_singleton.mpr (hsub length (Or.inl rfl))
  · exact List.forall_mem_singleton.mpr habsent
  · exact List.forall_mem_singleton.mpr (hsub pair (Or.inr rfl))

end Reshape
