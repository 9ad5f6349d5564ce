import Mathlib.Data.List.Perm.Basic
import Reshape.Proofs.Evaluator.Depth
import Reshape.Proofs.Fields

/-!
# Keyed entries are independent

Each entry of an object is evaluated afresh on the source, whatever the steps before the object and
the entries before it have made. Evaluating the object is therefore a map over its entries, each
evaluated as if it stood alone with a bound smaller by one.

Two things stand between the evaluator and that map. The fields are written into an object that
grows, which for distinct keys only appends; and an entry stands one deeper than the object, which
is the same as a bound smaller by one, except that the error of the bound names the larger one.
-/

namespace Reshape

/-- The error of a mapping that stands one deeper under a bound larger by one. -/
def MappingError.deepen : MappingError → MappingError
  | .tooDeep bound => .tooDeep (bound + 1)
  | error => error

namespace Evaluator

variable {registry : Registry} {bound : Nat} {source : Value}

theorem mapError_deepen_runToken (current : Option Value) (token : Token) :
    (runToken registry source current token).mapError MappingError.deepen =
      runToken registry source current token := by
  cases hrun : runToken registry source current token with
  | ok value => rfl
  | error error =>
      cases error with
      | tooDeep limit => exact absurd hrun (Spec.runToken_ne_tooDeep current token limit)
      | _ => rfl

theorem run_succ_of_within {spec : Spec} {current : Option Value} {depth : Nat}
    (hwithin : depth ≤ bound → run ⟨registry, bound + 1⟩ source current (depth + 1) spec =
      (run ⟨registry, bound⟩ source current depth spec).mapError MappingError.deepen) :
    run ⟨registry, bound + 1⟩ source current (depth + 1) spec =
      (run ⟨registry, bound⟩ source current depth spec).mapError MappingError.deepen := by
  -- past the bound both sides are the error of the bound
  by_cases hdepth : depth ≤ bound
  · exact hwithin hdepth
  · rw [run_of_lt spec (by omega), run_of_lt spec (by omega)]
    rfl

/-- One level deeper under a bound larger by one is the same place. -/
theorem run_succ (spec : Spec) (current : Option Value) (depth : Nat) :
    run ⟨registry, bound + 1⟩ source current (depth + 1) spec =
      (run ⟨registry, bound⟩ source current depth spec).mapError MappingError.deepen := by
  induction spec generalizing current depth with
  | filter token =>
      refine run_succ_of_within fun hdepth => ?_
      rw [run_filter token hdepth, run_filter token (Nat.succ_le_succ hdepth),
        mapError_deepen_runToken]
  | sequence steps ih =>
      refine run_succ_of_within fun hdepth => ?_
      have hlarger : depth + 1 ≤ bound + 1 := Nat.succ_le_succ hdepth
      cases steps with
      | nil =>
          rw [run_sequence_nil hdepth, run_sequence_nil hlarger]
          rfl
      | cons step rest =>
          rw [List.forall_mem_cons] at ih
          rw [run_sequence_cons step rest hdepth, run_sequence_cons step rest hlarger, ih.1,
            mapError_bind]
          refine bind_congr fun output => ?_
          rw [mapError_foldlM]
          exact foldlM_congr (fun step hmem output => ih.2 step hmem _ _) output
  | fields entries ih =>
      refine run_succ_of_within fun hdepth => ?_
      rw [run_fields entries hdepth, run_fields entries (Nat.succ_le_succ hdepth), mapError_map,
        mapError_foldlM]
      congr 1
      refine foldlM_congr (fun entry hmem fields => ?_) []
      rw [ih entry hmem, mapError_map]
  | literal value =>
      refine run_succ_of_within fun hdepth => ?_
      rw [run_literal value hdepth, run_literal value (Nat.succ_le_succ hdepth)]
      rfl

theorem evaluate_fields_eq_mapM {entries : List (String × Spec)}
    (hkeys : (Fields.keys entries).Nodup) :
    evaluate ⟨registry, bound + 1⟩ source (.fields entries) =
      (entries.mapM fun entry => ((evaluate ⟨registry, bound⟩ source entry.2).mapError
        MappingError.deepen).map (Prod.mk entry.1)).map .object := by
  have hgrow := Fields.foldlM_insert_nil
    (fun entry : String × Spec => run ⟨registry, bound + 1⟩ source none 2 entry.2) hkeys
  rw [evaluate, run_fields entries (Nat.le_add_left 1 bound), hgrow]
  simp only [run_succ, evaluate]

/-- The entries have these fields, in the same order, when each is evaluated alone. -/
def EntriesAlone (evaluator : Evaluator) (source : Value) :
    List (String × Spec) → Fields Value → Prop :=
  List.Forall₂ fun entry field =>
    field.1 = entry.1 ∧ evaluator.evaluate source entry.2 = .ok field.2

theorem EntriesAlone.keys_eq {evaluator : Evaluator} {entries : List (String × Spec)}
    {fields : Fields Value} (halone : EntriesAlone evaluator source entries fields) :
    fields.keys = Fields.keys entries :=
  Fields.keys_eq_of_forall₂ (halone.imp fun _ _ hfield => hfield.1)

theorem evaluate_fields_eq_ok_iff {entries : List (String × Spec)}
    (hkeys : (Fields.keys entries).Nodup) {value : Value} :
    evaluate ⟨registry, bound + 1⟩ source (.fields entries) = .ok value ↔
      ∃ fields, EntriesAlone ⟨registry, bound⟩ source entries fields ∧ .object fields = value := by
  rw [evaluate_fields_eq_mapM hkeys, map_eq_ok_iff]
  simp only [mapM_eq_ok_iff, map_mk_eq_ok_iff, mapError_eq_ok_iff, EntriesAlone]

theorem evaluate_fields_eq_error_iff {entries : List (String × Spec)}
    (hkeys : (Fields.keys entries).Nodup) {error : MappingError} :
    evaluate ⟨registry, bound + 1⟩ source (.fields entries) = .error error ↔
      ∃ before entry after cause, entries = before ++ entry :: after ∧
        (∀ earlier ∈ before, ∃ value, evaluate ⟨registry, bound⟩ source earlier.2 = .ok value) ∧
        evaluate ⟨registry, bound⟩ source entry.2 = .error cause ∧ error = cause.deepen := by
  rw [evaluate_fields_eq_mapM hkeys, map_eq_error_iff, mapM_eq_error_iff]
  simp only [map_eq_error_iff, mapError_eq_error_iff, map_mk_eq_ok_iff, mapError_eq_ok_iff]
  constructor
  · rintro ⟨before, entry, after, hsplit, hbefore, cause, hcause, rfl⟩
    refine ⟨before, entry, after, cause, hsplit, fun earlier hmem => ?_, hcause, rfl⟩
    obtain ⟨field, -, hvalue⟩ := hbefore earlier hmem
    exact ⟨field.2, hvalue⟩
  · rintro ⟨before, entry, after, cause, hsplit, hbefore, hcause, rfl⟩
    refine ⟨before, entry, after, hsplit, fun earlier hmem => ?_, cause, hcause, rfl⟩
    obtain ⟨value, hvalue⟩ := hbefore earlier hmem
    exact ⟨(earlier.1, value), rfl, hvalue⟩

theorem exists_entriesAlone_iff {evaluator : Evaluator} {entries : List (String × Spec)} :
    (∃ fields, EntriesAlone evaluator source entries fields) ↔
      ∀ entry ∈ entries, ∃ value, evaluator.evaluate source entry.2 = .ok value := by
  refine Iff.trans exists_forall₂_iff (forall₂_congr fun entry _ => ?_)
  constructor
  · rintro ⟨field, -, hvalue⟩
    exact ⟨field.2, hvalue⟩
  · rintro ⟨value, hvalue⟩
    exact ⟨(entry.1, value), rfl, hvalue⟩

/-! ### What stands before an object -/

theorem run_fields_current (evaluator : Evaluator) (source : Value) (current : Option Value)
    (depth : Nat) (entries : List (String × Spec)) :
    evaluator.run source current depth (.fields entries) =
      evaluator.run source none depth (.fields entries) := by
  rw [run, run]

theorem evaluate_sequence_concat_fields {steps : List Spec} {value : Value}
    (hsteps : evaluate ⟨registry, bound⟩ source (.sequence steps) = .ok value)
    (entries : List (String × Spec)) :
    evaluate ⟨registry, bound⟩ source (.sequence (steps ++ [.fields entries])) =
      evaluate ⟨registry, bound⟩ source (.sequence [.fields entries]) := by
  have hdepth : 1 ≤ bound := depth_le_of_run_eq_ok hsteps
  cases steps with
  | nil => rfl
  | cons step rest =>
      rw [evaluate, run_sequence_cons step rest hdepth] at hsteps
      obtain ⟨first, hfirst, hrest⟩ := bind_eq_ok_iff.mp hsteps
      rw [evaluate, evaluate, List.cons_append, run_sequence_cons step _ hdepth,
        run_sequence_cons _ [] hdepth, hfirst]
      change List.foldlM _ first _ = _
      rw [List.foldlM_append, hrest]
      change (run _ source (some value) 2 _ >>= _) = _
      rw [run_fields_current]

/-! ### The order of the entries -/

theorem evaluate_fields_perm {entries permuted : List (String × Spec)} {fields : Fields Value}
    (hkeys : (Fields.keys entries).Nodup) (hperm : permuted.Perm entries)
    (hwhole : evaluate ⟨registry, bound + 1⟩ source (.fields entries) = .ok (.object fields)) :
    ∃ others, evaluate ⟨registry, bound + 1⟩ source (.fields permuted) = .ok (.object others) ∧
      others.Perm fields ∧ Fields.keys others = Fields.keys permuted := by
  obtain ⟨values, halone, hvalues⟩ := (evaluate_fields_eq_ok_iff hkeys).mp hwhole
  cases hvalues
  obtain ⟨others, hothers, hfields⟩ := List.perm_comp_forall₂ hperm halone
  have hpermuted : (Fields.keys permuted).Nodup := (hperm.map Prod.fst).nodup_iff.mpr hkeys
  exact ⟨others, (evaluate_fields_eq_ok_iff hpermuted).mpr ⟨others, hothers, rfl⟩, hfields,
    EntriesAlone.keys_eq hothers⟩

/-- **Keyed entries are independent.** An object succeeds with the values that its entries have
alone, or fails as the first entry that fails alone. Steps before it and the order of its entries
have no part in any value. -/
theorem evaluate_fields (registry : Registry) (bound : Nat) (source : Value)
    (entries : List (String × Spec)) (hkeys : (Fields.keys entries).Nodup) :
    let alone (entry : String × Spec) := evaluate ⟨registry, bound⟩ source entry.2
    let whole := evaluate ⟨registry, bound + 1⟩ source
    ((∃ value, whole (.fields entries) = .ok value) ↔
      ∀ entry ∈ entries, ∃ value, alone entry = .ok value) ∧
    (∀ value, whole (.fields entries) = .ok value ↔ ∃ fields,
      List.Forall₂ (fun entry field => field.1 = entry.1 ∧ alone entry = .ok field.2)
        entries fields ∧ .object fields = value) ∧
    (∀ error, whole (.fields entries) = .error error ↔
      ∃ before entry after cause, entries = before ++ entry :: after ∧
        (∀ earlier ∈ before, ∃ value, alone earlier = .ok value) ∧
        alone entry = .error cause ∧ error = cause.deepen) ∧
    (∀ steps output, whole (.sequence steps) = .ok output →
      whole (.sequence (steps ++ [.fields entries])) = whole (.sequence [.fields entries])) ∧
    ∀ permuted fields, permuted.Perm entries → whole (.fields entries) = .ok (.object fields) →
      ∃ others, whole (.fields permuted) = .ok (.object others) ∧ others.Perm fields ∧
        Fields.keys others = Fields.keys permuted := by
  intro alone whole
  have hok : ∀ value, whole (.fields entries) = .ok value ↔
      ∃ fields, EntriesAlone ⟨registry, bound⟩ source entries fields ∧ .object fields = value :=
    fun value => evaluate_fields_eq_ok_iff hkeys
  refine ⟨?_, hok, fun error => evaluate_fields_eq_error_iff hkeys,
    fun steps output hsteps => evaluate_sequence_concat_fields hsteps entries,
    fun permuted fields hperm hwhole => evaluate_fields_perm hkeys hperm hwhole⟩
  refine Iff.trans ?_ exists_entriesAlone_iff
  constructor
  · rintro ⟨value, hvalue⟩
    obtain ⟨fields, halone, -⟩ := (hok value).mp hvalue
    exact ⟨fields, halone⟩
  · rintro ⟨fields, halone⟩
    exact ⟨.object fields, (hok _).mpr ⟨fields, halone, rfl⟩⟩

theorem evaluate_fields_after_step :
    let source : Value := .array [.bool true, .null]
    let entries : List (String × Spec) :=
      [("whole", .filter ⟨"identity", []⟩), ("count", .filter ⟨"length", []⟩)]
    let fields : Fields Value := [("whole", source), ("count", .integer 2)]
    let whole := evaluate ⟨.standard, 2⟩ source
    (Fields.keys entries).Nodup ∧ whole (.sequence [.literal (.array [])]) = .ok (.array []) ∧
      whole (.fields entries) = .ok (.object fields) ∧
      whole (.sequence [.literal (.array []), .fields entries]) =
        whole (.sequence [.fields entries]) ∧
      ∃ others, whole (.fields entries.reverse) = .ok (.object others) ∧ others.Perm fields ∧
        Fields.keys others = ["count", "whole"] := by
  intro source entries fields whole
  -- the entries see the source, an array of two, and not the empty array made before them
  have hkeys : (Fields.keys entries).Nodup := by decide
  have hstep : whole (.sequence [.literal (.array [])]) = .ok (.array []) := rfl
  have hwhole : whole (.fields entries) = .ok (.object fields) := rfl
  obtain ⟨-, -, -, hafter, hperm⟩ := evaluate_fields .standard 1 source entries hkeys
  exact ⟨hkeys, hstep, hwhole, hafter _ _ hstep, hperm _ _ entries.reverse_perm hwhole⟩

end Evaluator

end Reshape
