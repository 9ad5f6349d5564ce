import Reshape.Proofs.Path.Slot

/-!
# What a write leaves alone

A write makes containers and places on its way before it knows whether it will succeed. It still
disturbs nothing beside its path: whatever stood where another path leads that parts from it is
still there, keys keep their order, and arrays only grow by places that hold nothing.
-/

namespace Reshape

/-- One list of segments parts from another: they have the same keys up to some place, and there
both go on with different ones. -/
inductive Segment.Diverge : List Segment → List Segment → Prop
  | here {segment other : Segment} (hkey : segment.keyName ≠ other.keyName)
      (rest more : List Segment) : Diverge (segment :: rest) (other :: more)
  | later {segment other : Segment} (hkey : segment.keyName = other.keyName)
      {rest more : List Segment} (hrest : Diverge rest more) :
      Diverge (segment :: rest) (other :: more)

namespace Value

variable {path : String} {old new : Value}

/-! ### Beside the path -/

/-- A container in which something stands is left as it is, or is written at one place. -/
theorem write_cons_of_step? {other : Segment} {child : Value}
    (hstep : old.step? other = some child) (path : String) (new : Value) (segment : Segment)
    (rest : List Segment) :
    (∃ failure, write path new (segment :: rest) old = ⟨old, some failure⟩) ∨
      old.refusal? path segment = none ∧
        write path new (segment :: rest) old =
          (write path new rest ((old.step? segment).getD .null)).within old segment := by
  have hsame := orContainer_of_refusal?_eq_none (refusal?_of_step? hstep path) segment
  cases hopen : old.refusal? path segment with
  | some failure =>
      left
      rw [write_cons_of_refused hsame hopen]
      exact ⟨failure, rfl⟩
  | none =>
      right
      exact ⟨rfl, write_cons_of_open hsame hopen⟩

theorem foldlM_step?_write_of_diverge {segments others : List Segment} {found : Value}
    (hdiverge : Segment.Diverge segments others) (hread : others.foldlM step? old = some found) :
    others.foldlM step? (write path new segments old).value = some found := by
  induction hdiverge generalizing old with
  | @here segment other hkey rest more =>
      obtain ⟨child, hstep, hmore⟩ := Option.bind_eq_some_iff.mp hread
      rcases write_cons_of_step? hstep path new segment rest with ⟨failure, hleft⟩ | ⟨-, hleft⟩
      · rwa [hleft]
      · rw [hleft, List.foldlM_cons, Written.within, step?_fill_of_keyName_ne hkey hstep]
        exact hmore
  | @later segment other hkey rest more hrest ih =>
      obtain ⟨child, hstep, hmore⟩ := Option.bind_eq_some_iff.mp hread
      rcases write_cons_of_step? hstep path new segment rest with ⟨failure, hleft⟩ | ⟨hopen, hleft⟩
      · rwa [hleft]
      · -- both segments name one place, before the write and after it
        have hother := refusal?_of_step? hstep path
        have hchild := step?_eq_of_keyName_eq hkey hopen hother
        have hfilled := step?_eq_of_keyName_eq hkey (refusal?_fill hopen segment
          (write path new rest child).value) (refusal?_fill hother segment _)
        rw [hleft, List.foldlM_cons, Written.within, hchild, hstep, Option.getD_some, ← hfilled,
          step?_fill hopen]
        exact ih hmore

/-! ### On the path -/

/-- A write that goes on behind a container leaves there what it leaves of the container alone. -/
theorem foldlM_step?_write_append (path : String) (new : Value) {trail : List Segment}
    {container : Value} (hread : trail.foldlM step? old = some container) (rest : List Segment) :
    trail.foldlM step? (write path new (trail ++ rest) old).value =
        some (write path new rest container).value ∧
      (write path new (trail ++ rest) old).failure = (write path new rest container).failure := by
  induction trail generalizing old with
  | nil =>
      cases hread
      exact ⟨rfl, rfl⟩
  | cons segment trail ih =>
      obtain ⟨child, hstep, htrail⟩ := Option.bind_eq_some_iff.mp hread
      have hopen := refusal?_of_step? hstep path
      have hsame := orContainer_of_refusal?_eq_none hopen segment
      rw [List.cons_append, write_cons_of_open hsame hopen, Written.within, hstep,
        List.foldlM_cons, step?_fill hopen]
      exact ih htrail

theorem keys_write_object (path : String) (new : Value) (segment : Segment) (rest : List Segment)
    (fields : Fields Value) :
    ∃ others, (write path new (segment :: rest) (.object fields)).value = .object others ∧
      Fields.keys others = if segment.keyName ∈ fields.keys then fields.keys
        else fields.keys ++ [segment.keyName] := by
  have hopen : refusal? path segment (.object fields) = none := rfl
  rw [write_cons_of_open rfl hopen]
  exact ⟨_, rfl, Fields.keys_insert _ _ fields⟩

/-- An array keeps its elements but the one that is addressed, and grows by places that hold
nothing, unless the write stops there and leaves the array as it is. -/
theorem getElem?_write_array (path : String) (new : Value) (segment : Segment)
    (rest : List Segment) (items : List Value) :
    ∃ others, (write path new (segment :: rest) (.array items)).value = .array others ∧
      (∀ i, i < items.length → segment.index? ≠ some i → others[i]? = items[i]?) ∧
      ((write path new (segment :: rest) (.array items)).failure ≠ none ∧ others = items ∨
        ∃ position, segment.index? = some position ∧
          others.length = max items.length (position + 1) ∧
          ∀ i, items.length ≤ i → i < position → others[i]? = some .null) := by
  have hsame : (Value.array items).orContainer segment = .array items := rfl
  cases hopen : refusal? path segment (.array items) with
  | some failure =>
      rw [write_cons_of_refused hsame hopen]
      exact ⟨items, rfl, fun _ _ _ => rfl, Or.inl ⟨Option.some_ne_none failure, rfl⟩⟩
  | none =>
      obtain ⟨position, hindex, -⟩ := refusal?_array_eq_none_iff.mp hopen
      rw [write_cons_of_open hsame hopen]
      simp only [Written.within, fill, hindex]
      refine ⟨_, rfl, fun i hlt hne => ?_, Or.inr ⟨position, rfl, ?_, fun i hge hlt => ?_⟩⟩
      · have hother : position ≠ i := fun heq => hne (congrArg some heq)
        rw [List.getElem?_set_ne hother, getElem?_padTo_of_lt hlt]
      · rw [List.length_set, length_padTo]
      · rw [List.getElem?_set_ne (Nat.ne_of_gt hlt),
          getElem?_padTo_of_ge hge (Nat.le_of_lt hlt)]

/-- **A write disturbs nothing beside its path**, even when it fails. What other paths lead to
stays, and on the path keys keep their order and arrays their elements: a new key comes last, and
new places before the addressed one hold nothing. -/
theorem put_frame (target : Value) (path : Path) (new : Value) :
    let left := (target.put path new).value
    (∀ (other : Path) found, Segment.Diverge path.segments other.segments →
      target.get? other = some found → left.get? other = some found) ∧
    ∀ (trail : Path) segment rest, path.segments = trail.segments ++ segment :: rest →
      (∀ fields, target.get? trail = some (.object fields) →
        ∃ others, left.get? trail = some (.object others) ∧
          Fields.keys others = if segment.keyName ∈ Fields.keys fields then Fields.keys fields
            else Fields.keys fields ++ [segment.keyName]) ∧
      ∀ items, target.get? trail = some (.array items) →
        ∃ others, left.get? trail = some (.array others) ∧
          (∀ i, i < items.length → segment.index? ≠ some i → others[i]? = items[i]?) ∧
          ((target.put path new).failure ≠ none ∧ others = items ∨
            ∃ position, segment.index? = some position ∧
              others.length = max items.length (position + 1) ∧
              ∀ i, items.length ≤ i → i < position → others[i]? = some .null) := by
  intro left
  refine ⟨fun other found hdiverge hread => foldlM_step?_write_of_diverge hdiverge hread,
    fun trail segment rest hsplit => ⟨fun fields hread => ?_, fun items hread => ?_⟩⟩
  · obtain ⟨hleft, -⟩ := foldlM_step?_write_append path.text new hread (segment :: rest)
    obtain ⟨others, hothers, hkeys⟩ := keys_write_object path.text new segment rest fields
    rw [hothers, ← hsplit] at hleft
    exact ⟨others, hleft, hkeys⟩
  · obtain ⟨hleft, hfailure⟩ := foldlM_step?_write_append path.text new hread (segment :: rest)
    obtain ⟨others, hothers, hitems⟩ := getElem?_write_array path.text new segment rest items
    rw [hothers, ← hsplit] at hleft
    rw [← hfailure, ← hsplit] at hitems
    exact ⟨others, hleft, hitems⟩

theorem put_frame_too_far :
    let target : Value := .object [("rows", .array [.array [.bool true], .null]), ("kept", .null)]
    let path : Path := ⟨"rows[3].new[70000]",
      [.key "rows", .index 3, .key "new", .index 70000]⟩
    let other : Path := ⟨"rows.0[0]", [.key "rows", .key "0", .index 0]⟩
    let left := (target.put path (.bool false)).value
    (target.put path (.bool false)).failure = some (.tooFar path.text 70000) ∧
      Segment.Diverge path.segments other.segments ∧
      target.get? other = some (.bool true) ∧ left.get? other = some (.bool true) ∧
      (∃ others, left.get? .root = some (.object others) ∧
        Fields.keys others = ["rows", "kept"]) ∧
      ∃ others, left.get? ⟨"rows", [.key "rows"]⟩ = some (.array others) ∧
        others[1]? = some .null ∧ others[2]? = some .null := by
  intro target path other left
  have hdiverge : Segment.Diverge path.segments other.segments :=
    .later rfl (.here (by decide) _ _)
  have hread : target.get? other = some (.bool true) := rfl
  obtain ⟨hbeside, hon⟩ := put_frame target path (.bool false)
  obtain ⟨others, hobject, hkeys⟩ := (hon .root (.key "rows") _ rfl).1 _ rfl
  obtain ⟨items, harray, hold, hnew⟩ :=
    (hon ⟨"rows", [.key "rows"]⟩ (.index 3) _ rfl).2 [.array [.bool true], .null] rfl
  refine ⟨rfl, hdiverge, hread, hbeside other _ hdiverge hread, ⟨others, hobject, hkeys⟩, items,
    harray, hold 1 (by decide) (by decide), ?_⟩
  -- the write stops further down, and not at the array
  rcases hnew with ⟨-, hsame⟩ | ⟨position, hposition, -, hnull⟩
  · have hgrown : left.get? ⟨"rows", [.key "rows"]⟩ = some (.array
        [.array [.bool true], .null, .null, .object [("new", .array [])]]) := rfl
    rw [harray, hsame] at hgrown
    cases hgrown
  · cases hposition
    exact hnull 2 (by decide) (by decide)

end Value

end Reshape
