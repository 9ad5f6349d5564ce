import Reshape.Proofs.Fields
import Reshape.Proofs.Path.Slot
import Reshape.Proofs.Value.Tree

/-!
# How far a write lengthens arrays

What a write finds at a place may be missing, and then it goes on as if nothing stood there. Walks
from such a place say what stood, in the value as it was, at each segment of the path. Held against
that, no array gets longer by more than the largest growth and the written item, and the lengths that
the write computes are words.
-/

namespace Reshape.Value

/-- What stands at the end of a walk from a place where perhaps nothing stands. -/
def walk? (found : Option Value) (trail : List Segment) : Option Value :=
  trail.foldl (fun found segment => found.bind (·.step? segment)) found

/-- The number of items of an array; where none stands, there are none. -/
def arrayLength : Option Value → Nat
  | some (.array items) => items.length
  | _ => 0

variable {path : String} {new old container : Value} {found : Option Value}
  {segment : Segment} {segments rest others : List Segment} {items : List Value}

@[simp] theorem walk?_nil (found : Option Value) : walk? found [] = found :=
  rfl

@[simp] theorem walk?_cons (found : Option Value) (segment : Segment) (rest : List Segment) :
    walk? found (segment :: rest) = walk? (found.bind (·.step? segment)) rest :=
  rfl

@[simp] theorem walk?_none (trail : List Segment) : walk? none trail = none := by
  induction trail with
  | nil => rfl
  | cons segment rest ih => exact ih

theorem walk?_some (value : Value) (trail : List Segment) :
    walk? (some value) trail = trail.foldlM step? value := by
  induction trail generalizing value with
  | nil => rfl
  | cons segment rest ih =>
      rw [walk?_cons, List.foldlM_cons, Option.bind_some]
      cases value.step? segment with
      | none => exact walk?_none rest
      | some child => exact ih child

theorem arrayLength_walk?_null (trail : List Segment) : arrayLength (walk? (some .null) trail) = 0 := by
  cases trail with
  | nil => rfl
  | cons segment rest =>
      change arrayLength (walk? none rest) = 0
      rw [walk?_none]
      rfl

/-! ### The container at a place -/

/-- A container that is made has no place yet. -/
theorem step?_orContainer (old : Value) (segment next : Segment) :
    (old.orContainer segment).step? next = old.step? next := by
  cases old with
  | array items => rfl
  | object fields => rfl
  | _ =>
      simp only [orContainer]
      split
      · cases hindex : next.index? with
        | none => simp only [step?, hindex, Option.bind_none]
        | some position => simp only [step?, hindex, Option.bind_some, List.getElem?_nil]
      · rfl

theorem step?_container (found : Option Value) (segment next : Segment) :
    ((found.getD .null).orContainer segment).step? next = found.bind (·.step? next) := by
  rw [step?_orContainer]
  cases found <;> rfl

theorem made_array (hmade : (if segment.index?.isSome then .array [] else .object []) = array items) :
    items = [] ∧ segment.index? ≠ none := by
  split at hmade
  · next hindex =>
      cases hmade
      exact ⟨rfl, Option.isSome_iff_ne_none.mp hindex⟩
  · cases hmade

/-- An array in which a write looks for a place stood there, or is made for an index where neither an
array nor an object stood. -/
theorem array_or_made (hcontainer : (found.getD .null).orContainer segment = .array items) :
    found = some (.array items) ∨
      (items = [] ∧ segment.index? ≠ none) ∧ arrayLength found = 0 ∧
        ∀ fields, found ≠ some (.object fields) := by
  cases found with
  | none => exact Or.inr ⟨made_array hcontainer, rfl, nofun⟩
  | some value =>
      cases value with
      | array others => exact Or.inl (congrArg some hcontainer)
      | object fields => cases hcontainer
      | _ => exact Or.inr ⟨made_array hcontainer, rfl, nofun⟩

theorem arrayLength_of_container
    (hcontainer : (found.getD .null).orContainer segment = .array items) :
    arrayLength found = items.length := by
  rcases array_or_made hcontainer with rfl | ⟨⟨rfl, -⟩, hnone, -⟩
  · rfl
  · exact hnone

theorem arrayLength_container (found : Option Value) (segment : Segment) :
    arrayLength (some ((found.getD .null).orContainer segment)) = arrayLength found := by
  rcases orContainer_cases (found.getD .null) segment with ⟨items, hitems⟩ | ⟨fields, hfields⟩
  · rw [hitems, arrayLength_of_container hitems]
    rfl
  · rw [hfields]
    cases found with
    | none => rfl
    | some value =>
        cases value with
        | array items => cases hfields
        | _ => rfl

/-! ### One level -/

/-- A segment for which the container has a place names, if it has the key of another one, the same
place. -/
theorem step?_eq_of_step?_fill {next : Segment} {child later : Value}
    (hkey : segment.keyName = next.keyName) (hopen : container.refusal? path segment = none)
    (hstep : (container.fill segment child).step? next = some later) :
    later = child ∧ container.step? next = container.step? segment := by
  have hfilled := refusal?_fill hopen segment child
  have hsame := step?_eq_of_keyName_eq hkey hfilled (refusal?_of_step? hstep path)
  rw [step?_fill hopen, hstep] at hsame
  refine ⟨(Option.some.inj hsame).symm, ?_⟩
  cases container with
  | array items =>
      obtain ⟨position, hposition, -⟩ := refusal?_array_eq_none_iff.mp hopen
      simp only [fill, hposition] at hstep
      obtain ⟨place, hplace, -⟩ := Option.bind_eq_some_iff.mp hstep
      obtain rfl := Segment.index?_unique hkey hposition hplace
      rw [step?, step?, hposition, hplace]
  | object fields => rw [step?, step?, hkey]
  | _ => cases hopen

/-- Beside the place that is written, a container is as it was or has a new place that holds
nothing. -/
theorem step?_fill_beside {next : Segment} (hkey : segment.keyName ≠ next.keyName)
    (container child : Value) :
    (container.fill segment child).step? next = container.step? next ∨
      (container.fill segment child).step? next = some .null := by
  cases container with
  | array items =>
      cases hindex : segment.index? with
      | none => simp only [fill, hindex, true_or]
      | some position =>
          cases hnext : next.index? with
          | none => simp only [fill, hindex, step?, hnext, Option.bind_none, true_or]
          | some place =>
              have hne : position ≠ place := by
                rintro rfl
                exact hkey ((Segment.keyName_of_index? hindex).trans
                  (Segment.keyName_of_index? hnext).symm)
              simp only [fill, hindex, step?, hnext, Option.bind_some, List.getElem?_set_ne hne]
              rcases Nat.lt_or_ge place items.length with hlt | hge
              · exact Or.inl (getElem?_padTo_of_lt hlt position)
              rcases Nat.lt_or_ge position place with hbehind | hbefore
              · left
                rw [List.getElem?_eq_none hge, List.getElem?_eq_none]
                rw [length_padTo]
                omega
              · exact Or.inr (getElem?_padTo_of_ge hge hbefore)
  | object fields =>
      left
      rw [fill, step?, Fields.get?_insert, if_neg (Ne.symm hkey), step?]
  | _ => exact Or.inl rfl

theorem arrayLength_fill_le (hopen : container.refusal? path segment = none) (child : Value) :
    arrayLength (some (container.fill segment child)) ≤
      arrayLength (some container) + (maxGrowth + 1) := by
  cases container with
  | array items =>
      obtain ⟨position, hindex, hle⟩ := refusal?_array_eq_none_iff.mp hopen
      simp only [fill, hindex, arrayLength, List.length_set, length_padTo]
      omega
  | object fields => exact Nat.zero_le _
  | _ => cases hopen

/-! ### A whole write -/

/-- A write lengthens no array by more than the largest growth and the written item, beside the value
that it puts at the end of its path. -/
theorem arrayLength_write_le (hbeside :
      (write path new segments (found.getD .null)).failure = none →
        ¬ segments.map Segment.keyName <+: others.map Segment.keyName) :
    arrayLength (walk? (some (write path new segments (found.getD .null)).value) others) ≤
      arrayLength (walk? found others) + (maxGrowth + 1) := by
  induction segments generalizing found others with
  | nil => exact absurd List.nil_prefix (hbeside rfl)
  | cons segment rest ih =>
      have hlength := arrayLength_container found segment
      have hplaces := step?_container found segment
      generalize hcontainer : (found.getD .null).orContainer segment = container at hlength hplaces
      cases hopen : container.refusal? path segment with
      | some failure =>
          rw [write_cons_of_refused hcontainer hopen]
          cases others with
          | nil => exact Nat.le_add_right_of_le (Nat.le_of_eq hlength)
          | cons next more =>
              rw [walk?_cons, walk?_cons, Option.bind_some, hplaces]
              exact Nat.le_add_right _ _
      | none =>
          rw [write_cons_of_open hcontainer hopen, hplaces] at hbeside ⊢
          cases others with
          | nil =>
              rw [← walk?_nil found] at hlength
              exact hlength ▸ arrayLength_fill_le hopen _
          | cons next more =>
              rw [walk?_cons, walk?_cons, Option.bind_some, Written.within, ← hplaces next]
              by_cases hkey : segment.keyName = next.keyName
              · cases hstep : (container.fill segment _).step? next with
                | none =>
                    rw [walk?_none]
                    exact Nat.zero_le _
                | some later =>
                    obtain ⟨rfl, hsame⟩ := step?_eq_of_step?_fill hkey hopen hstep
                    rw [hsame, hplaces]
                    refine ih fun hwritten hprefix => hbeside hwritten ?_
                    rw [List.map_cons, List.map_cons, hkey]
                    exact List.prefix_cons_inj _ |>.mpr hprefix
              · rcases step?_fill_beside hkey container _ with hsame | hnull
                · rw [hsame]
                  exact Nat.le_add_right _ _
                · rw [hnull, arrayLength_walk?_null]
                  exact Nat.zero_le _

/-! ### Lengths as words -/

/-- The difference of two unsigned words, unless it is below zero. -/
def subWord? (a b : Nat) : Option Nat :=
  if b ≤ a then some (a - b) else none

/-- The sum of two unsigned words, unless it is past the greatest one. -/
def addWord? (a b : Nat) : Option Nat :=
  if a + b < 2 ^ 64 then some (a + b) else none

/-- The length that an array needs for an index, reckoned in words. Nothing is the result of an
overflow; an index too far past the end is an answer, and needs no length. -/
def neededLength? (length position : Nat) : Option (Option Nat) :=
  if position < length then some (some length)
  else do
    let distance ← subWord? position length
    if maxGrowth < distance then return none
    let needed ← addWord? position 1
    return some needed

/-- A write that reckons in words, and gives no result where a step overflows. -/
def writeInWords? (path : String) (new : Value) : List Segment → Value → Option Written
  | [], _ => some ⟨new, none⟩
  | segment :: rest, old =>
    match old.orContainer segment with
    | .array items =>
      match segment.index? with
      | none => some ⟨.array items, some (.mismatch path "array index" s!"key '{segment.text}'")⟩
      | some position => do
        match ← neededLength? items.length position with
        | none => return ⟨.array items, some (.tooFar path position)⟩
        | some length =>
          let grown := items ++ List.replicate (length - items.length) .null
          let inner ← writeInWords? path new rest (grown[position]?.getD .null)
          return ⟨.array (grown.set position inner.value), inner.failure⟩
    | .object fields => do
      let inner ← writeInWords? path new rest ((Fields.get? fields segment.keyName).getD .null)
      return ⟨.object (Fields.insert segment.keyName inner.value fields), inner.failure⟩
    | other => some ⟨other, some (.mismatch path "array or object" other.typeName)⟩

theorem neededLength?_eq {length position : Nat} (hlength : length < 2 ^ 63)
    (hposition : position < 2 ^ 64) :
    neededLength? length position =
      some (if length + maxGrowth < position then none else some (max length (position + 1))) := by
  unfold neededLength?
  split
  · next hlt =>
      rw [if_neg (by omega), Nat.max_eq_left hlt]
  · next hge =>
      rw [subWord?, if_pos (Nat.le_of_not_lt hge)]
      change (if maxGrowth < position - length then some none
        else addWord? position 1 >>= fun needed => some (some needed)) = _
      by_cases hfar : length + maxGrowth < position
      · rw [if_pos (by omega), if_pos hfar]
      · -- the index is far below the greatest word, for the length is
        have hsum : position + 1 < 2 ^ 64 := by
          unfold maxGrowth at hfar
          omega
        rw [if_neg (by omega), if_neg hfar, addWord?, if_pos hsum, Nat.max_eq_right (by omega)]
        rfl

/-- The arrays of a value are short enough for their lengths to be words with room to spare. -/
def IsCounted (value : Value) : Prop :=
  ∀ items, Occurs (.array items) value → items.length < 2 ^ 63

theorem IsCounted.step {child : Value} (hcounted : old.IsCounted) (hstep : old.step? segment = some child) :
    child.IsCounted := by
  intro items hoccurs
  apply hcounted
  cases old with
  | array others =>
      obtain ⟨position, -, hitem⟩ := Option.bind_eq_some_iff.mp hstep
      exact .item (List.mem_of_getElem? hitem) hoccurs
  | object fields =>
      exact .member (Fields.mem_of_get? hstep) hoccurs
  | _ => cases hstep

theorem isCounted_null : IsCounted .null := by
  intro items hoccurs
  cases hoccurs

theorem IsCounted.getD_step (hcounted : old.IsCounted) (segment : Segment) :
    ((old.step? segment).getD .null).IsCounted := by
  cases hstep : old.step? segment with
  | none => exact isCounted_null
  | some child => exact hcounted.step hstep

theorem IsCounted.length_lt (hcounted : old.IsCounted) (hcontainer : old.orContainer segment = .array items) :
    items.length < 2 ^ 63 := by
  have hcontainer : ((some old).getD .null).orContainer segment = .array items := hcontainer
  rcases array_or_made hcontainer with heq | ⟨⟨rfl, -⟩, -⟩
  · exact hcounted items (Option.some.inj heq ▸ .here)
  · exact Nat.two_pow_pos 63

theorem padTo_eq_append (items : List Value) (position : Nat) :
    items ++ List.replicate (max items.length (position + 1) - items.length) .null =
      padTo items position := by
  rw [padTo, Nat.max_def]
  split
  · rfl
  · next hlt => rw [Nat.sub_self, Nat.sub_eq_zero_of_le (Nat.le_of_not_le hlt)]

/-- No step of a write overflows. -/
theorem writeInWords?_eq (path : String) (new : Value) (hcounted : old.IsCounted)
    (hwords : ∀ position, Segment.index position ∈ segments → position < 2 ^ 64) :
    writeInWords? path new segments old = some (write path new segments old) := by
  induction segments generalizing old with
  | nil => rfl
  | cons segment rest ih =>
      have hinner := ih (hcounted.getD_step segment) fun position hmem =>
        hwords position (List.mem_cons_of_mem segment hmem)
      have hword : ∀ position, segment.index? = some position → position < 2 ^ 64 := by
        intro position hindex
        cases segment with
        | index place => exact Option.some.inj hindex ▸ hwords place List.mem_cons_self
        | key name => exact Segment.lt_two_pow_of_index?_key hindex
      rw [← step?_orContainer old segment] at hinner
      rw [writeInWords?, write]
      rcases orContainer_cases old segment with ⟨items, hitems⟩ | ⟨fields, hfields⟩
      · rw [hitems] at hinner ⊢
        cases hindex : segment.index? with
        | none => rfl
        | some position =>
            have hneeded := neededLength?_eq (hcounted.length_lt hitems) (hword position hindex)
            simp only [hneeded]
            by_cases hfar : items.length + maxGrowth < position
            · rw [if_pos hfar, if_pos hfar]
              rfl
            · rw [step?, hindex, Option.bind_some, ← getD_padTo] at hinner
              rw [if_neg hfar, if_neg hfar]
              simp only [Option.bind_eq_bind, Option.bind_some, padTo_eq_append, hinner]
              rfl
      · rw [hfields] at hinner ⊢
        rw [step?] at hinner
        simp only [hinner]
        rfl

end Reshape.Value
