import Mathlib.Data.Nat.Find
import Reshape.Proofs.Path.Growth

/-!
# What stops a write

A write replaces, makes and lengthens containers as it goes, so that at each segment it looks at a
value that it may have changed itself. Whether it stops there is decided all the same by what stood
there before: an array in the way of a key that is no index, or an index too far past the end of an
array, or past zero where a new one is made. The first such obstacle is the failure.
-/

namespace Reshape.Value

/-- What stands at a segment does not let a write pass: an array has no place for a key that is no
index, and an index is too far past the end of what is or becomes an array. -/
inductive Obstacle (path : String) (segment : Segment) : Option Value → PathError → Prop
  | mismatch {items : List Value} (hindex : segment.index? = none) :
      Obstacle path segment (some (.array items))
        (.mismatch path "array index" s!"key '{segment.text}'")
  | tooFar {found : Option Value} {position : Nat} (hindex : segment.index? = some position)
      (hobject : ∀ fields, found ≠ some (.object fields))
      (hfar : arrayLength found + maxGrowth < position) :
      Obstacle path segment found (.tooFar path position)

section

variable {path : String} {new : Value} {found : Option Value} {segment : Segment}
  {segments rest : List Segment} {failure : PathError} {i : Nat}

/-! ### One segment -/

/-- For an index no object is made. -/
theorem object_of_container {fields : Fields Value} {position : Nat}
    (hcontainer : (found.getD .null).orContainer segment = .object fields)
    (hindex : segment.index? = some position) : found = some (.object fields) := by
  have hmade : (if segment.index?.isSome then Value.array [] else .object []) ≠ .object fields := by
    rw [hindex]
    exact nofun
  cases found with
  | none => exact absurd hcontainer hmade
  | some value =>
      cases value with
      | object others => exact congrArg some hcontainer
      | array items => cases hcontainer
      | _ => exact absurd hcontainer hmade

theorem obstacle_of_refusal? (hrefused :
      ((found.getD .null).orContainer segment).refusal? path segment = some failure) :
    Obstacle path segment found failure := by
  rcases orContainer_cases (found.getD .null) segment with ⟨items, hitems⟩ | ⟨fields, hfields⟩
  · have hlength := arrayLength_of_container hitems
    rw [hitems, refusal?] at hrefused
    cases hindex : segment.index? with
    | none =>
        rw [hindex] at hrefused
        cases hrefused
        rcases array_or_made hitems with rfl | ⟨⟨-, hmade⟩, -⟩
        · exact .mismatch hindex
        · exact absurd hindex hmade
    | some position =>
        simp only [hindex] at hrefused
        split at hrefused
        · next hfar =>
            cases hrefused
            refine .tooFar hindex ?_ (hlength ▸ hfar)
            rcases array_or_made hitems with rfl | ⟨-, -, hobject⟩
            · intro fields heq
              cases heq
            · exact hobject
        · cases hrefused
  · rw [hfields] at hrefused
    cases hrefused

theorem refusal?_of_obstacle (hobstacle : Obstacle path segment found failure) :
    ((found.getD .null).orContainer segment).refusal? path segment = some failure := by
  cases hobstacle with
  | @mismatch items hindex =>
      change refusal? path segment (.array items) = _
      rw [refusal?, hindex]
  | tooFar hindex hobject hfar =>
      rcases orContainer_cases (found.getD .null) segment with ⟨items, hitems⟩ | ⟨fields, hfields⟩
      · rw [arrayLength_of_container hitems] at hfar
        rw [hitems, refusal?, hindex]
        exact if_pos hfar
      · exact absurd (object_of_container hfields hindex) (hobject fields)

/-- The container that a write makes ready refuses the segment just where there is an obstacle. -/
theorem refusal?_eq_some_iff :
    ((found.getD .null).orContainer segment).refusal? path segment = some failure ↔
      Obstacle path segment found failure :=
  ⟨obstacle_of_refusal?, refusal?_of_obstacle⟩

theorem Obstacle.ne_no_container (hobstacle : Obstacle path segment found failure) {kind : String} :
    failure ≠ .mismatch path "array or object" kind := by
  intro heq
  cases hobstacle with
  | mismatch => exact absurd (PathError.mismatch.inj heq).2.1 (by decide)
  | tooFar => cases heq

/-! ### A whole path -/

/-- The obstacle at the segment with a number, on a walk from a place where perhaps nothing stands. -/
def MeetsAt (path : String) (found : Option Value) (segments : List Segment) (i : Nat)
    (failure : PathError) : Prop :=
  ∃ segment, segments[i]? = some segment ∧
    Obstacle path segment (walk? found (segments.take i)) failure

theorem meetsAt_cons_zero_iff :
    MeetsAt path found (segment :: rest) 0 failure ↔ Obstacle path segment found failure := by
  simp [MeetsAt]

theorem meetsAt_cons_succ_iff :
    MeetsAt path found (segment :: rest) (i + 1) failure ↔
      MeetsAt path (found.bind (·.step? segment)) rest i failure := by
  simp only [MeetsAt, List.getElem?_cons_succ, List.take_succ_cons, walk?_cons]

/-- A write fails for the first obstacle on its path. -/
theorem failure_write_eq_some_iff :
    (write path new segments (found.getD .null)).failure = some failure ↔
      ∃ i, MeetsAt path found segments i failure ∧
        ∀ j < i, ∀ other, ¬ MeetsAt path found segments j other := by
  induction segments generalizing found with
  | nil => simp [write, MeetsAt]
  | cons segment rest ih =>
      rw [← Nat.or_exists_add_one]
      simp only [Nat.forall_lt_succ_left, meetsAt_cons_zero_iff, meetsAt_cons_succ_iff]
      cases hopen : ((found.getD .null).orContainer segment).refusal? path segment with
      | some cause =>
          have hobstacle := refusal?_eq_some_iff.mp hopen
          rw [write_cons_of_refused rfl hopen, ← refusal?_eq_some_iff, hopen]
          constructor
          · intro heq
            exact Or.inl ⟨heq, fun j hlt => absurd hlt (Nat.not_lt_zero j)⟩
          · rintro (⟨heq, -⟩ | ⟨i, -, hnone, -⟩)
            · exact heq
            · exact absurd hobstacle (hnone cause)
      | none =>
          have hnone : ∀ other, ¬ Obstacle path segment found other := by
            intro other hobstacle
            rw [← refusal?_eq_some_iff, hopen] at hobstacle
            cases hobstacle
          rw [write_cons_of_open rfl hopen, step?_container]
          refine ih.trans ?_
          constructor
          · rintro ⟨i, hmeets, hfirst⟩
            exact Or.inr ⟨i, hmeets, hnone, hfirst⟩
          · rintro (⟨hobstacle, -⟩ | ⟨i, hmeets, -, hfirst⟩)
            · exact absurd hobstacle (hnone failure)
            · exact ⟨i, hmeets, hfirst⟩

theorem failure_write_eq_none_iff :
    (write path new segments (found.getD .null)).failure = none ↔
      ∀ i cause, ¬ MeetsAt path found segments i cause := by
  classical
  constructor
  · intro hwritten i cause hmeets
    have hexists : ∃ i, ∃ cause, MeetsAt path found segments i cause := ⟨i, cause, hmeets⟩
    obtain ⟨first, hfirst⟩ := Nat.find_spec hexists
    have hnone : ∀ j < Nat.find hexists, ∀ other, ¬ MeetsAt path found segments j other :=
      fun j hlt other hother => Nat.find_min hexists hlt ⟨other, hother⟩
    have hfailure : (write path new segments (found.getD .null)).failure = some first :=
      failure_write_eq_some_iff.mpr ⟨_, hfirst, hnone⟩
    rw [hwritten] at hfailure
    cases hfailure
  · intro hnone
    cases hfailure : (write path new segments (found.getD .null)).failure with
    | none => rfl
    | some cause =>
        obtain ⟨i, hmeets, -⟩ := failure_write_eq_some_iff.mp hfailure
        exact absurd hmeets (hnone i cause)

end

/-- The obstacle at the segment of a path with a number, in the value as it is. -/
def ObstacleAt (target : Value) (path : Path) (i : Nat) (failure : PathError) : Prop :=
  ∃ segment, path.segments[i]? = some segment ∧
    Obstacle path.text segment ((path.segments.take i).foldlM step? target) failure

theorem meetsAt_some_iff {target : Value} {path : Path} {i : Nat} {failure : PathError} :
    MeetsAt path.text (some target) path.segments i failure ↔ ObstacleAt target path i failure := by
  simp only [MeetsAt, ObstacleAt, walk?_some]

/-- **A write fails exactly when it must.** It fails if there is an obstacle at a segment of its path
in the value as it is, and the first one is the failure; so it never comes to a place where there is
neither an array nor an object. It reckons in words without overflow, up to the greatest index, and
lengthens no array by more than the largest growth and the written item, whether or not it fails. -/
theorem put_stops_at_obstacles (target : Value) (path : Path) (new : Value) :
    ((target.put path new).failure ≠ none ↔ ∃ i failure, ObstacleAt target path i failure) ∧
    (∀ i failure, ObstacleAt target path i failure →
      (∀ j < i, ∀ earlier, ¬ ObstacleAt target path j earlier) →
      (target.put path new).failure = some failure) ∧
    (∀ found, (target.put path new).failure ≠ some (.mismatch path.text "array or object" found)) ∧
    (target.IsCounted →
      (∀ position, Segment.index position ∈ path.segments → position < 2 ^ 64) →
      writeInWords? path.text new path.segments target = some (target.put path new)) ∧
    ∀ other : Path,
      ((target.put path new).failure = none →
        ¬ path.segments.map Segment.keyName <+: other.segments.map Segment.keyName) →
      arrayLength ((target.put path new).value.get? other) ≤
        arrayLength (target.get? other) + (maxGrowth + 1) := by
  have hput : target.put path new = write path.text new path.segments ((some target).getD .null) := rfl
  refine ⟨?_, fun i failure hobstacle hfirst => ?_, fun found hfailure => ?_,
    writeInWords?_eq path.text new, fun other hbeside => ?_⟩
  · rw [hput, Ne, failure_write_eq_none_iff]
    simp only [meetsAt_some_iff, not_forall, not_not]
  · rw [hput, failure_write_eq_some_iff]
    simp only [meetsAt_some_iff]
    exact ⟨i, hobstacle, hfirst⟩
  · rw [hput, failure_write_eq_some_iff] at hfailure
    obtain ⟨i, ⟨segment, -, hobstacle⟩, -⟩ := hfailure
    exact hobstacle.ne_no_container rfl
  · rw [get?, get?, ← walk?_some, ← walk?_some]
    rw [hput] at hbeside ⊢
    exact arrayLength_write_le hbeside

/-- An array is lengthened for a key in decimal form, and the greatest index then stops the write. -/
theorem put_stops_at_obstacles_greatest_index :
    let target : Value := .object [("rows", .array [.null]), ("kept", .bool true)]
    let path : Path := ⟨"rows.3.new[18446744073709551615]",
      [.key "rows", .key "3", .key "new", .index 18446744073709551615]⟩
    let failure : PathError := .tooFar path.text 18446744073709551615
    let left := target.put path .null
    ObstacleAt target path 3 failure ∧ (∀ j < 3, ∀ earlier, ¬ ObstacleAt target path j earlier) ∧
      left.failure = some failure ∧ target.IsCounted ∧
      writeInWords? path.text .null path.segments target = some left ∧
      left.value.get? ⟨"rows", [.key "rows"]⟩ =
        some (.array [.null, .null, .null, .object [("new", .array [])]]) ∧
      arrayLength (left.value.get? ⟨"rows", [.key "rows"]⟩) ≤ 1 + (maxGrowth + 1) := by
  intro target path failure left
  have hobstacle : ObstacleAt target path 3 failure :=
    ⟨.index 18446744073709551615, rfl, refusal?_eq_some_iff.mp rfl⟩
  have hfirst : ∀ j < 3, ∀ earlier, ¬ ObstacleAt target path j earlier := by
    rintro j hlt earlier ⟨segment, hsegment, hobstacle⟩
    have hrefused := refusal?_of_obstacle hobstacle
    match j, hlt with
    | 0, _ | 1, _ | 2, _ =>
        cases hsegment
        cases hrefused
  have hcounted : target.IsCounted := by
    simp [target, IsCounted]
  have hwords : ∀ position, Segment.index position ∈ path.segments → position < 2 ^ 64 := by
    simp [path]
  obtain ⟨-, hstops, -, hreckons, hlengthens⟩ := put_stops_at_obstacles target path .null
  have hfailure := hstops 3 failure hobstacle hfirst
  refine ⟨hobstacle, hfirst, hfailure, hcounted, hreckons hcounted hwords, rfl, ?_⟩
  refine hlengthens ⟨"rows", [.key "rows"]⟩ fun hwritten => ?_
  rw [hfailure] at hwritten
  cases hwritten

end Reshape.Value
