import Reshape.Path.Write
import Reshape.Proofs.Path.Segment

/-!
# The place of a segment in a container

A write goes down through one container for each segment of its path: it reads what stands at the
place of the segment, goes on there, and puts the result back. Here is what one such level does,
with the place that is read always the one that is written. What holds of whole paths follows from
these laws by induction on the segments.
-/

namespace Reshape.Value

/-- Why a container has no place for a segment. -/
def refusal? (path : String) (segment : Segment) : Value → Option PathError
  | .array items =>
    match segment.index? with
    | none => some (.mismatch path "array index" s!"key '{segment.text}'")
    | some position =>
      if items.length + maxGrowth < position then some (.tooFar path position) else none
  | .object _ => none
  | other => some (.mismatch path "array or object" other.typeName)

def fill (container : Value) (segment : Segment) (child : Value) : Value :=
  match container with
  | .array items =>
    match segment.index? with
    | none => .array items
    | some position => .array ((padTo items position).set position child)
  | .object fields => .object (Fields.insert segment.keyName child fields)
  | other => other

/-- What a write inside a container leaves of the container. -/
def Written.within (inner : Written) (container : Value) (segment : Segment) : Written :=
  ⟨container.fill segment inner.value, inner.failure⟩

/-! ### Arrays that grow -/

theorem length_padTo (items : List Value) (position : Nat) :
    (padTo items position).length = max items.length (position + 1) := by
  rw [padTo, List.length_append, List.length_replicate]
  omega

theorem padTo_of_lt {items : List Value} {position : Nat} (hlt : position < items.length) :
    padTo items position = items := by
  rw [padTo, Nat.sub_eq_zero_of_le hlt, List.replicate_zero, List.append_nil]

theorem getElem?_padTo_of_lt {items : List Value} {i : Nat} (hlt : i < items.length)
    (position : Nat) : (padTo items position)[i]? = items[i]? := by
  rw [padTo, List.getElem?_append_left hlt]

theorem getElem?_padTo_of_ge {items : List Value} {i position : Nat} (hge : items.length ≤ i)
    (hle : i ≤ position) : (padTo items position)[i]? = some .null := by
  rw [padTo, List.getElem?_append_right hge, List.getElem?_replicate, if_pos (by omega)]

/-- Places that a write makes hold nothing, which is also what it reads at places that miss. -/
theorem getD_padTo (items : List Value) (position : Nat) :
    (padTo items position)[position]?.getD .null = items[position]?.getD .null := by
  rcases Nat.lt_or_ge position items.length with hlt | hge
  · rw [getElem?_padTo_of_lt hlt]
  · rw [getElem?_padTo_of_ge hge (Nat.le_refl position), List.getElem?_eq_none hge]
    rfl

/-! ### Containers -/

theorem orContainer_cases (value : Value) (segment : Segment) :
    (∃ items, value.orContainer segment = .array items) ∨
      ∃ fields, value.orContainer segment = .object fields := by
  cases value with
  | array items => exact Or.inl ⟨items, rfl⟩
  | object fields => exact Or.inr ⟨fields, rfl⟩
  | _ =>
      simp only [orContainer]
      split
      · exact Or.inl ⟨[], rfl⟩
      · exact Or.inr ⟨[], rfl⟩

theorem orContainer_orContainer (value : Value) (segment next : Segment) :
    (value.orContainer segment).orContainer next = value.orContainer segment := by
  rcases orContainer_cases value segment with ⟨items, hitems⟩ | ⟨fields, hfields⟩
  · rw [hitems, orContainer]
  · rw [hfields, orContainer]

theorem refusal?_array_eq_none_iff {path : String} {segment : Segment} {items : List Value} :
    refusal? path segment (.array items) = none ↔
      ∃ position, segment.index? = some position ∧ position ≤ items.length + maxGrowth := by
  rw [refusal?]
  cases segment.index? with
  | none => simp
  | some position => simp

theorem orContainer_of_refusal?_eq_none {path : String} {segment : Segment} {container : Value}
    (hopen : container.refusal? path segment = none) (next : Segment) :
    container.orContainer next = container := by
  cases container with
  | array items => rfl
  | object fields => rfl
  | _ => cases hopen

/-! ### One level of a write -/

section Level

variable {path : String} {segment : Segment} {old new container : Value} {rest : List Segment}

theorem write_cons_of_refused {failure : PathError}
    (hcontainer : old.orContainer segment = container)
    (hrefused : container.refusal? path segment = some failure) :
    write path new (segment :: rest) old = ⟨container, some failure⟩ := by
  rw [write, hcontainer]
  cases container with
  | array items =>
      rw [refusal?] at hrefused
      cases hindex : segment.index? with
      | none =>
          rw [hindex] at hrefused
          rw [← hrefused]
      | some position =>
          rw [hindex] at hrefused
          simp only at hrefused ⊢
          split at hrefused
          · next hfar => rw [if_pos hfar, ← hrefused]
          · cases hrefused
  | object fields => cases hrefused
  | _ =>
      rw [← hrefused]
      rfl

theorem write_cons_of_open (hcontainer : old.orContainer segment = container)
    (hopen : container.refusal? path segment = none) :
    write path new (segment :: rest) old =
      (write path new rest ((container.step? segment).getD .null)).within container segment := by
  rw [write, hcontainer]
  cases container with
  | array items =>
      obtain ⟨position, hindex, hle⟩ := refusal?_array_eq_none_iff.mp hopen
      simp only [hindex, Written.within, fill, step?, getD_padTo, if_neg (Nat.not_lt.mpr hle),
        Option.bind_some]
  | object fields => simp only [Written.within, fill, step?]
  | _ => cases hopen

end Level

/-! ### The laws of one level -/

variable {path : String} {container child : Value} {segment other : Segment}

theorem step?_fill (hopen : container.refusal? path segment = none) (child : Value) :
    (container.fill segment child).step? segment = some child := by
  cases container with
  | array items =>
      obtain ⟨position, hindex, -⟩ := refusal?_array_eq_none_iff.mp hopen
      have hlt : position < (padTo items position).length := by
        rw [length_padTo]
        omega
      simp only [fill, hindex, step?, Option.bind_some, List.getElem?_set_self hlt]
  | object fields => simp only [fill, step?, Fields.get?_insert, if_pos]
  | _ => cases hopen

theorem fill_fill (container : Value) (segment : Segment) (child later : Value) :
    (container.fill segment child).fill segment later = container.fill segment later := by
  cases container with
  | array items =>
      cases hindex : segment.index? with
      | none => simp only [fill, hindex]
      | some position =>
          -- the first write has made the place, so that the second adds none
          have hlt : position < ((padTo items position).set position child).length := by
            rw [List.length_set, length_padTo]
            omega
          simp only [fill, hindex, padTo_of_lt hlt, List.set_set]
  | object fields => simp only [fill, Fields.insert_insert]
  | _ => rfl

theorem fill_of_step? (hstep : container.step? segment = some child) :
    container.fill segment child = container := by
  cases container with
  | array items =>
      obtain ⟨position, hindex, hitem⟩ := Option.bind_eq_some_iff.mp hstep
      obtain ⟨hlt, hitem⟩ := List.getElem?_eq_some_iff.mp hitem
      simp only [fill, hindex, padTo_of_lt hlt, ← hitem, List.set_getElem_self]
  | object fields => rw [fill, Fields.insert_of_get? hstep]
  | _ => cases hstep

theorem refusal?_of_step? (hstep : container.step? segment = some child) (path : String) :
    container.refusal? path segment = none := by
  cases container with
  | array items =>
      obtain ⟨position, hindex, hitem⟩ := Option.bind_eq_some_iff.mp hstep
      obtain ⟨hlt, -⟩ := List.getElem?_eq_some_iff.mp hitem
      exact refusal?_array_eq_none_iff.mpr ⟨position, hindex, by omega⟩
  | object fields => rfl
  | _ => cases hstep

/-- Containers only grow, so that no place is lost. -/
theorem refusal?_fill (hopen : container.refusal? path other = none) (segment : Segment)
    (child : Value) : (container.fill segment child).refusal? path other = none := by
  cases container with
  | array items =>
      obtain ⟨place, hplace, hle⟩ := refusal?_array_eq_none_iff.mp hopen
      rw [fill]
      split
      · exact hopen
      · refine refusal?_array_eq_none_iff.mpr ⟨place, hplace, ?_⟩
        rw [List.length_set, length_padTo]
        omega
  | object fields => rfl
  | _ => cases hopen

/-- Two segments with the same key name the same place, where both name one. -/
theorem step?_eq_of_keyName_eq (hkey : segment.keyName = other.keyName)
    (hopen : container.refusal? path segment = none)
    (hother : container.refusal? path other = none) :
    container.step? segment = container.step? other := by
  cases container with
  | array items =>
      obtain ⟨position, hposition, -⟩ := refusal?_array_eq_none_iff.mp hopen
      obtain ⟨place, hplace, -⟩ := refusal?_array_eq_none_iff.mp hother
      obtain rfl := Segment.index?_unique hkey hposition hplace
      rw [step?, step?, hposition, hplace]
  | object fields => rw [step?, step?, hkey]
  | _ => cases hopen

theorem step?_fill_of_keyName_ne (hkey : segment.keyName ≠ other.keyName)
    (hstep : container.step? other = some child) (new : Value) :
    (container.fill segment new).step? other = some child := by
  cases container with
  | array items =>
      obtain ⟨place, hplace, hitem⟩ := Option.bind_eq_some_iff.mp hstep
      cases hindex : segment.index? with
      | none => simp only [fill, hindex, hstep]
      | some position =>
          -- one place has one key, so that different keys are different places
          have hne : position ≠ place := by
            rintro rfl
            exact hkey ((Segment.keyName_of_index? hindex).trans
              (Segment.keyName_of_index? hplace).symm)
          obtain ⟨hlt, -⟩ := List.getElem?_eq_some_iff.mp hitem
          simp only [fill, hindex, step?, hplace, Option.bind_some, List.getElem?_set_ne hne,
            getElem?_padTo_of_lt hlt, hitem]
  | object fields => rw [fill, step?, Fields.get?_insert, if_neg (Ne.symm hkey), ← hstep, step?]
  | _ => cases hstep

end Reshape.Value
