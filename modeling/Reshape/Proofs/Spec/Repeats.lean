import Reshape.Proofs.Evaluator.Depth
import Reshape.Proofs.Fields.Repeats
import Reshape.Proofs.Spec.Data

/-!
# Mappings with keys given again

Keys may repeat in a list of entries but not in an object, so that they have to be settled: when the
mapping is made, when it is evaluated or when it is written as data. As long as no entry fails, it
makes no difference when. An entry that has been replaced in the mapping can no longer fail, which is
why the results go from the entries to the mapping made from them and not back.
-/

namespace Reshape.Spec

variable {entries : List (String × Spec)} {value : Value}

theorem run_ofEntries {evaluator : Evaluator} {source : Value} {current : Option Value}
    {depth : Nat} (hraw : evaluator.run source current depth (.fields entries) = .ok value) :
    evaluator.run source current depth (ofEntries entries) = .ok value := by
  obtain ⟨registry, bound⟩ := evaluator
  have hdepth : depth ≤ bound := Evaluator.depth_le_of_run_eq_ok hraw
  rw [Evaluator.run_fields _ hdepth] at hraw
  obtain ⟨fields, hfields, rfl⟩ := map_eq_ok_iff.mp hraw
  rw [ofEntries, Evaluator.run_fields _ hdepth, Fields.foldlM_insert_ofEntries _ hfields]
  rfl

theorem toValue_ofEntries (hraw : toValue (.fields entries) = .ok value) :
    (ofEntries entries).toValue = .ok value := by
  rw [toValue, toFields_eq_foldlM] at hraw
  obtain ⟨fields, hfields, rfl⟩ := map_eq_ok_iff.mp hraw
  rw [ofEntries, toValue, toFields_eq_foldlM, Fields.foldlM_insert_ofEntries _ hfields]
  rfl

/-- **Keys are settled alike everywhere.** The mapping made from entries has each key once, in the
order in which keys are first given, with the mapping that is given last under it. Where the entries
as they stand have a value on a source, it is the value of the mapping made from them, and where
they have data, it is the data of that mapping, the order of keys included. -/
theorem ofEntries_settles (entries : List (String × Spec)) :
    ∃ fields, ofEntries entries = .fields fields ∧ Fields.Settled entries fields ∧
      (∀ (evaluator : Evaluator) (source value : Value),
        evaluator.evaluate source (.fields entries) = .ok value →
          evaluator.evaluate source (ofEntries entries) = .ok value) ∧
      ∀ value, toValue (.fields entries) = .ok value → (ofEntries entries).toValue = .ok value :=
  ⟨Fields.ofEntries entries, rfl, Fields.settled_ofEntries entries,
    fun _ _ _ hraw => run_ofEntries hraw, fun _ hraw => toValue_ofEntries hraw⟩

/-- One key is given three times, around another one. -/
theorem ofEntries_settles_three_times :
    let source : Value := .array [.bool true, .null]
    let entries : List (String × Spec) :=
      [("a", .filter ⟨"toStr", []⟩), ("b", .filter ⟨"identity", []⟩),
        ("a", .filter ⟨"reverse", []⟩), ("a", .filter ⟨"length", []⟩)]
    let evaluator : Evaluator := ⟨.standard, 2⟩
    let whole : Value := .object [("a", .integer 2), ("b", source)]
    let data : Value := .object [("a", .string "length"), ("b", .string "identity")]
    evaluator.evaluate source (.fields entries) = .ok whole ∧
      evaluator.evaluate source (ofEntries entries) = .ok whole ∧
      toValue (.fields entries) = .ok data ∧ (ofEntries entries).toValue = .ok data := by
  intro source entries evaluator whole data
  have hwhole : evaluator.evaluate source (.fields entries) = .ok whole := rfl
  have hdata : toValue (.fields entries) = .ok data := rfl
  obtain ⟨fields, -, -, hevaluate, hto⟩ := ofEntries_settles entries
  exact ⟨hwhole, hevaluate evaluator source whole hwhole, hdata, hto data hdata⟩

end Reshape.Spec
