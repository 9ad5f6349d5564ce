import Reshape.Proofs.Evaluator.Denotation

/-!
# The bound on nesting

The bound changes nothing else: a mapping whose height is within it has its unbounded value, and a
higher one fails, either with the error of the bound or with its own error where that comes first.

The proof compares results up to being cut off. A larger bound cuts off less, and a bound as large
as the height cuts off nothing, so that the unbounded value is the value at a bound large enough.
-/

namespace Reshape

/-- A result is another one, or was cut off at the bound. -/
def CutAt {α : Type} (bound : Nat) (cut whole : Except MappingError α) : Prop :=
  cut = .error (.tooDeep bound) ∨ cut = whole

namespace CutAt

variable {α β : Type} {bound : Nat}

theorem refl (result : Except MappingError α) : CutAt bound result result :=
  Or.inr rfl

theorem bind {cut whole : Except MappingError α} {next more : α → Except MappingError β}
    (hfirst : CutAt bound cut whole) (hnext : ∀ value, CutAt bound (next value) (more value)) :
    CutAt bound (cut >>= next) (whole >>= more) := by
  rcases hfirst with rfl | rfl
  · exact Or.inl rfl
  · cases cut with
    | error error => exact Or.inr rfl
    | ok value => exact hnext value

theorem map {cut whole : Except MappingError α} (f : α → β) (hcut : CutAt bound cut whole) :
    CutAt bound (cut.map f) (whole.map f) := by
  rcases hcut with rfl | rfl
  · exact Or.inl rfl
  · exact refl _

theorem foldlM {items : List α} {step more : β → α → Except MappingError β}
    (hstep : ∀ item ∈ items, ∀ state, CutAt bound (step state item) (more state item)) (state : β) :
    CutAt bound (items.foldlM step state) (items.foldlM more state) := by
  induction items generalizing state with
  | nil => exact refl _
  | cons item rest ih =>
      rw [List.forall_mem_cons] at hstep
      rw [List.foldlM_cons, List.foldlM_cons]
      exact (hstep.1 state).bind (ih hstep.2)

end CutAt

namespace Evaluator

variable {registry : Registry} {bound larger : Nat} {source : Value} {current : Option Value}
  {depth : Nat}

theorem runSteps_eq_foldlM (evaluator : Evaluator) (output : Value) (depth : Nat)
    (steps : List Spec) :
    evaluator.runSteps source output depth steps =
      steps.foldlM (fun output step => evaluator.run source (some output) depth step) output := by
  induction steps generalizing output with
  | nil => rfl
  | cons step rest ih =>
      rw [runSteps, List.foldlM_cons]
      exact bind_congr ih

theorem runFields_eq_foldlM (evaluator : Evaluator) (fields : Fields Value) (depth : Nat)
    (entries : List (String × Spec)) :
    evaluator.runFields source fields depth entries =
      entries.foldlM (fun fields entry =>
        (evaluator.run source none depth entry.2).map (fields.insert entry.1)) fields := by
  induction entries generalizing fields with
  | nil => rfl
  | cons entry rest ih =>
      rw [runFields, List.foldlM_cons]
      cases evaluator.run source none depth entry.2 with
      | error error => rfl
      | ok value => exact ih (fields.insert entry.1 value)

/-! What one node does, past the bound and within it. -/

theorem run_of_lt (spec : Spec) (hdepth : bound < depth) :
    run ⟨registry, bound⟩ source current depth spec = .error (.tooDeep bound) := by
  rw [run.eq_def, if_pos hdepth]

theorem run_filter (token : Token) (hdepth : depth ≤ bound) :
    run ⟨registry, bound⟩ source current depth (.filter token) =
      runToken registry source current token := by
  rw [run, if_neg (Nat.not_lt.mpr hdepth)]

theorem run_sequence_nil (hdepth : depth ≤ bound) :
    run ⟨registry, bound⟩ source current depth (.sequence []) = .ok (.array []) := by
  rw [run, if_neg (Nat.not_lt.mpr hdepth)]

theorem run_sequence_cons (step : Spec) (rest : List Spec) (hdepth : depth ≤ bound) :
    run ⟨registry, bound⟩ source current depth (.sequence (step :: rest)) =
      run ⟨registry, bound⟩ source current (depth + 1) step >>= fun output =>
        rest.foldlM (fun output step =>
          run ⟨registry, bound⟩ source (some output) (depth + 1) step) output := by
  rw [run, if_neg (Nat.not_lt.mpr hdepth)]
  simp only [runSteps_eq_foldlM]

theorem run_fields (entries : List (String × Spec)) (hdepth : depth ≤ bound) :
    run ⟨registry, bound⟩ source current depth (.fields entries) =
      (entries.foldlM (fun (fields : Fields Value) entry =>
        (run ⟨registry, bound⟩ source none (depth + 1) entry.2).map (fields.insert entry.1))
        []).map .object := by
  rw [run, if_neg (Nat.not_lt.mpr hdepth)]
  simp only [runFields_eq_foldlM]

theorem run_literal (value : Value) (hdepth : depth ≤ bound) :
    run ⟨registry, bound⟩ source current depth (.literal value) = .ok value := by
  rw [run, if_neg (Nat.not_lt.mpr hdepth)]

/-- Past the bound every result is cut off, so that only nodes within it need an argument. -/
theorem cutAt_of_within {spec : Spec} {whole : Except MappingError Value}
    (hwithin : depth ≤ bound →
      CutAt bound (run ⟨registry, bound⟩ source current depth spec) whole) :
    CutAt bound (run ⟨registry, bound⟩ source current depth spec) whole := by
  by_cases hdepth : depth ≤ bound
  · exact hwithin hdepth
  · exact Or.inl (run_of_lt spec (by omega))

theorem cutAt_run (hbound : bound ≤ larger) (spec : Spec) (current : Option Value) (depth : Nat) :
    CutAt bound (run ⟨registry, bound⟩ source current depth spec)
      (run ⟨registry, larger⟩ source current depth spec) := by
  induction spec generalizing current depth with
  | filter token =>
      refine cutAt_of_within fun hdepth => ?_
      have hlarger : depth ≤ larger := Nat.le_trans hdepth hbound
      rw [run_filter token hdepth, run_filter token hlarger]
      exact CutAt.refl _
  | sequence steps ih =>
      refine cutAt_of_within fun hdepth => ?_
      have hlarger : depth ≤ larger := Nat.le_trans hdepth hbound
      cases steps with
      | nil =>
          rw [run_sequence_nil hdepth, run_sequence_nil hlarger]
          exact CutAt.refl _
      | cons step rest =>
          rw [List.forall_mem_cons] at ih
          rw [run_sequence_cons step rest hdepth,
            run_sequence_cons step rest hlarger]
          refine (ih.1 current (depth + 1)).bind fun output => ?_
          exact CutAt.foldlM (fun step hstep output => ih.2 step hstep _ _) output
  | fields entries ih =>
      refine cutAt_of_within fun hdepth => ?_
      have hlarger : depth ≤ larger := Nat.le_trans hdepth hbound
      rw [run_fields entries hdepth, run_fields entries hlarger]
      refine CutAt.map _ (CutAt.foldlM (fun entry hentry fields => ?_) [])
      exact (ih entry hentry none (depth + 1)).map _
  | literal value =>
      refine cutAt_of_within fun hdepth => ?_
      have hlarger : depth ≤ larger := Nat.le_trans hdepth hbound
      rw [run_literal value hdepth, run_literal value hlarger]
      exact CutAt.refl _

/-- Where the height is within the bound, the bound does not show. -/
theorem run_eq_denote (spec : Spec) (current : Option Value) (depth : Nat)
    (hheight : spec.height + depth ≤ bound + 1) :
    run ⟨registry, bound⟩ source current depth spec = spec.denote registry source current := by
  have hdepth : depth ≤ bound := by
    have hpos := spec.height_pos
    omega
  -- A child stands one deeper and is at least one lower, so the induction keeps the sum.
  induction spec generalizing current depth with
  | filter token => rw [run_filter token hdepth, Spec.denote]
  | sequence steps ih =>
      have hsteps : ∀ step ∈ steps, step.height ≤ bound - depth := by
        rw [← Spec.stepsHeight_le_iff]
        rw [Spec.height] at hheight
        omega
      have hstep : ∀ step ∈ steps, ∀ current,
          run ⟨registry, bound⟩ source current (depth + 1) step =
            step.denote registry source current := by
        intro step hmem current
        have hpos := step.height_pos
        have hle := hsteps step hmem
        exact ih step hmem current (depth + 1) (by omega) (by omega)
      cases steps with
      | nil => rw [run_sequence_nil hdepth, Spec.denote]
      | cons step rest =>
          rw [List.forall_mem_cons] at hstep
          rw [run_sequence_cons step rest hdepth, Spec.denote, hstep.1]
          refine bind_congr fun output => ?_
          rw [Spec.denoteSteps_eq_foldlM]
          exact foldlM_congr (fun step hmem output => hstep.2 step hmem (some output)) output
  | fields entries ih =>
      have hentries : ∀ entry ∈ entries, entry.2.height ≤ bound - depth := by
        rw [← Spec.entriesHeight_le_iff]
        rw [Spec.height] at hheight
        omega
      rw [run_fields entries hdepth, Spec.denote, Spec.denoteFields_eq_foldlM]
      congr 1
      refine foldlM_congr (fun entry hmem fields => ?_) []
      have hpos := entry.2.height_pos
      have hle := hentries entry hmem
      rw [ih entry hmem none (depth + 1) (by omega) (by omega)]
  | literal value => rw [run_literal value hdepth, Spec.denote]

theorem depth_le_of_run_eq_ok {spec : Spec} {value : Value}
    (hrun : run ⟨registry, bound⟩ source current depth spec = .ok value) : depth ≤ bound := by
  refine Nat.not_lt.mp fun hdepth => ?_
  rw [run_of_lt spec hdepth] at hrun
  cases hrun

theorem height_le_of_run_eq_ok (spec : Spec) (current : Option Value) (depth : Nat) {value : Value}
    (hrun : run ⟨registry, bound⟩ source current depth spec = .ok value) :
    spec.height + depth ≤ bound + 1 := by
  induction spec generalizing current depth value with
  | filter token =>
      have hdepth := depth_le_of_run_eq_ok hrun
      rw [Spec.height]
      omega
  | sequence steps ih =>
      have hdepth := depth_le_of_run_eq_ok hrun
      have hsteps : Spec.stepsHeight steps ≤ bound - depth := by
        rw [Spec.stepsHeight_le_iff]
        cases steps with
        | nil => simp
        | cons step rest =>
            rw [List.forall_mem_cons] at ih ⊢
            rw [run_sequence_cons step rest hdepth] at hrun
            obtain ⟨output, hstep, hrest⟩ := bind_eq_ok_iff.mp hrun
            constructor
            · have hle := ih.1 current (depth + 1) hstep
              omega
            · intro step hmem
              obtain ⟨before, after, hstep⟩ := exists_ok_of_foldlM_eq_ok hrest step hmem
              have hle := ih.2 step hmem _ _ hstep
              omega
      rw [Spec.height]
      omega
  | fields entries ih =>
      have hdepth := depth_le_of_run_eq_ok hrun
      have hentries : Spec.entriesHeight entries ≤ bound - depth := by
        rw [Spec.entriesHeight_le_iff]
        intro entry hmem
        rw [run_fields entries hdepth] at hrun
        obtain ⟨fields, hfold, -⟩ := map_eq_ok_iff.mp hrun
        obtain ⟨before, after, hentry⟩ := exists_ok_of_foldlM_eq_ok hfold entry hmem
        obtain ⟨value, hvalue, -⟩ := map_eq_ok_iff.mp hentry
        have hle := ih entry hmem none (depth + 1) hvalue
        omega
      rw [Spec.height]
      omega
  | literal value =>
      have hdepth := depth_le_of_run_eq_ok hrun
      rw [Spec.height]
      omega

theorem cutAt_denote (spec : Spec) (current : Option Value) (depth : Nat) :
    CutAt bound (run ⟨registry, bound⟩ source current depth spec)
      (spec.denote registry source current) := by
  have hbound : bound ≤ bound + (spec.height + depth) := Nat.le_add_right _ _
  have hwhole : run ⟨registry, bound + (spec.height + depth)⟩ source current depth spec =
      spec.denote registry source current :=
    run_eq_denote spec current depth (by omega)
  rw [← hwhole]
  exact cutAt_run hbound spec current depth

/-- **The bound is transparent and exact.** Within it a mapping has its unbounded outcome, past it
the mapping fails, and a larger bound changes no outcome but the error of the bound. -/
theorem evaluate_transparent (evaluator : Evaluator) (source : Value) (spec : Spec) :
    (spec.height ≤ evaluator.maxDepth →
      evaluator.evaluate source spec = spec.denote evaluator.registry source none ∧
      ∀ bound, evaluator.evaluate source spec ≠ .error (.tooDeep bound)) ∧
    (evaluator.maxDepth < spec.height →
      (∀ value, evaluator.evaluate source spec ≠ .ok value) ∧
      (evaluator.evaluate source spec = .error (.tooDeep evaluator.maxDepth) ∨
        ∃ error, evaluator.evaluate source spec = .error error ∧
          spec.denote evaluator.registry source none = .error error)) ∧
    ∀ larger, evaluator.maxDepth ≤ larger →
      evaluator.evaluate source spec ≠ .error (.tooDeep evaluator.maxDepth) →
      ({ evaluator with maxDepth := larger } : Evaluator).evaluate source spec =
        evaluator.evaluate source spec := by
  obtain ⟨registry, bound⟩ := evaluator
  refine ⟨fun hheight => ?_, fun hheight => ?_, fun larger hlarger houtcome => ?_⟩
  · have heq : evaluate ⟨registry, bound⟩ source spec = spec.denote registry source none :=
      run_eq_denote spec none 1 (Nat.succ_le_succ hheight)
    refine ⟨heq, fun limit => ?_⟩
    rw [heq]
    exact spec.denote_ne_tooDeep none limit
  · change bound < spec.height at hheight
    have hfails : ∀ value, evaluate ⟨registry, bound⟩ source spec ≠ .ok value := by
      intro value hvalue
      have hle := height_le_of_run_eq_ok spec none 1 hvalue
      omega
    refine ⟨hfails, ?_⟩
    rcases cutAt_denote spec none 1 with hcut | hwhole
    · exact Or.inl hcut
    · cases houtcome : evaluate ⟨registry, bound⟩ source spec with
      | ok value => exact absurd houtcome (hfails value)
      | error error => exact Or.inr ⟨error, rfl, hwhole.symm.trans houtcome⟩
  · rcases cutAt_run hlarger spec none 1 with hcut | hwhole
    · exact absurd hcut houtcome
    · exact hwhole.symm

/-- A mapping past the bound that fails before the bound is met. -/
theorem evaluate_transparent_early_failure :
    let mapping : Spec := .sequence [.filter ⟨"absent", []⟩, .sequence [.literal .null]]
    let small : Evaluator := ⟨.empty, 2⟩
    let large : Evaluator := ⟨.empty, 3⟩
    (mapping.height ≤ 3 ∧ large.evaluate .null mapping = mapping.denote .empty .null none) ∧
      (2 < mapping.height ∧ ∀ value, small.evaluate .null mapping ≠ .ok value) ∧
      small.evaluate .null mapping ≠ .error (.tooDeep 2) ∧
      large.evaluate .null mapping = small.evaluate .null mapping := by
  intro mapping small large
  have hlarge : mapping.height ≤ 3 := by decide
  have hsmall : 2 < mapping.height := by decide
  have houtcome : small.evaluate .null mapping = .error (.unknownFilter "absent") := rfl
  have hne : small.evaluate .null mapping ≠ .error (.tooDeep 2) := by
    rw [houtcome]
    exact fun h => MappingError.noConfusion (Except.error.inj h)
  exact ⟨⟨hlarge, ((evaluate_transparent large .null mapping).1 hlarge).1⟩,
    ⟨hsmall, ((evaluate_transparent small .null mapping).2.1 hsmall).1⟩, hne,
    (evaluate_transparent small .null mapping).2.2 3 (by decide) hne⟩

end Evaluator

end Reshape
