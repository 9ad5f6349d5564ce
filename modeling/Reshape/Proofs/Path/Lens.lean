import Reshape.Proofs.Path.Slot

/-!
# Paths as lenses

What is written at a path is read there, a second write at a path leaves nothing of the first, and
writing back what was read changes nothing. Each law is that of a single level, carried down the
segments.
-/

namespace Reshape.Value

variable {path : String} {old new : Value} {segments : List Segment}

theorem foldlM_step?_write (hwritten : (write path new segments old).failure = none) :
    segments.foldlM step? (write path new segments old).value = some new := by
  induction segments generalizing old with
  | nil => rfl
  | cons segment rest ih =>
      cases hopen : (old.orContainer segment).refusal? path segment with
      | some failure =>
          rw [write_cons_of_refused rfl hopen] at hwritten
          cases hwritten
      | none =>
          rw [write_cons_of_open rfl hopen] at hwritten ⊢
          rw [List.foldlM_cons, Written.within, step?_fill hopen]
          exact ih hwritten

/-- The second of two writes is all that is left, whether or not they succeed. -/
theorem write_write (path : String) (new later old : Value) (segments : List Segment) :
    write path later segments (write path new segments old).value =
      write path later segments old := by
  induction segments generalizing old with
  | nil => rfl
  | cons segment rest ih =>
      cases hopen : (old.orContainer segment).refusal? path segment with
      | some failure =>
          -- the container that the first write made refuses the second as well
          have hsame := orContainer_orContainer old segment segment
          rw [write_cons_of_refused rfl hopen, write_cons_of_refused rfl hopen,
            write_cons_of_refused hsame hopen]
      | none =>
          rw [write_cons_of_open rfl hopen, write_cons_of_open rfl hopen, Written.within]
          have hfilled := refusal?_fill hopen segment
            (write path new rest (((old.orContainer segment).step? segment).getD .null)).value
          have hsame := orContainer_of_refusal?_eq_none hfilled segment
          rw [write_cons_of_open hsame hfilled, step?_fill hopen, Option.getD_some, ih,
            Written.within, Written.within, fill_fill]

theorem write_of_foldlM_step? (path : String) (hread : segments.foldlM step? old = some new) :
    write path new segments old = ⟨old, none⟩ := by
  induction segments generalizing old with
  | nil => rw [write, Option.some.inj hread]
  | cons segment rest ih =>
      rw [List.foldlM_cons] at hread
      obtain ⟨child, hstep, hrest⟩ := Option.bind_eq_some_iff.mp hread
      have hopen := refusal?_of_step? hstep path
      have hsame := orContainer_of_refusal?_eq_none hopen segment
      rw [write_cons_of_open hsame hopen, hstep, Option.getD_some, ih hrest, Written.within,
        fill_of_step? hstep]

theorem failure_write (path : String) (new later old : Value) (segments : List Segment) :
    (write path new segments old).failure = (write path later segments old).failure := by
  induction segments generalizing old with
  | nil => rfl
  | cons segment rest ih =>
      cases hopen : (old.orContainer segment).refusal? path segment with
      | some failure => rw [write_cons_of_refused rfl hopen, write_cons_of_refused rfl hopen]
      | none =>
          rw [write_cons_of_open rfl hopen, write_cons_of_open rfl hopen]
          exact ih _

/-- **Paths are lenses.** What a write leaves is read back, a second write undoes the first and
succeeds with it, and writing back what is read changes nothing, not even the order of keys. -/
theorem put_lens (target : Value) (path : Path) (new later : Value) :
    ((target.put path new).failure = none →
      (target.put path new).value.get? path = some new ∧
      (target.put path new).value.put path later = target.put path later ∧
      (target.put path later).failure = none) ∧
    (target.get? path = some new → target.put path new = ⟨target, none⟩) := by
  refine ⟨fun hwritten => ⟨foldlM_step?_write hwritten, ?_, ?_⟩, write_of_foldlM_step? path.text⟩
  · exact write_write path.text new later target path.segments
  · exact (failure_write path.text later new target path.segments).trans hwritten

/-- A write that replaces a scalar by an array, grows it and makes an object in it. -/
theorem put_lens_through_scalar :
    let target : Value := .object [("list", .bool true), ("other", .null)]
    let path : Path := ⟨"list[2].name", [.key "list", .index 2, .key "name"]⟩
    let left : Value := .object
      [("list", .array [.null, .null, .object [("name", .string "x")]]), ("other", .null)]
    target.put path (.string "x") = ⟨left, none⟩ ∧ left.get? path = some (.string "x") ∧
      left.put path .null = target.put path .null ∧ (target.put path .null).failure = none ∧
      left.put path (.string "x") = ⟨left, none⟩ := by
  intro target path left
  have hleft : target.put path (.string "x") = ⟨left, none⟩ := rfl
  have hwritten := congrArg Written.failure hleft
  obtain ⟨hget, hagain, hlater⟩ := (put_lens target path (.string "x") .null).1 hwritten
  rw [hleft] at hget hagain
  exact ⟨hleft, hget, hagain, hlater, (put_lens left path (.string "x") .null).2 hget⟩

end Reshape.Value
