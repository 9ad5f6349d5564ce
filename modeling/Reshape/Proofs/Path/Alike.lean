import Mathlib.Data.List.Forall2
import Reshape.Proofs.Path.Slot

/-!
# Numeric keys and indices

A key that is the decimal form of an index addresses what the index addresses: the same member of an
object, the same element of an array, and the same container where one has to be made. Paths that
differ in nothing else are therefore read alike, and writes along them leave the same value and stop
for the same reason.
-/

namespace Reshape

namespace Segment

theorem isCanonicalIndex_toDigits (position : Nat) :
    isCanonicalIndex (Nat.toDigits 10 position) = true := by
  rw [isCanonicalIndex_eq_true_iff]
  refine ⟨Nat.toDigits_ne_nil, fun c hmem => ?_, ?_⟩
  · exact Nat.isDigit_of_mem_toDigits (by decide) (by decide) hmem
  · rcases Nat.eq_zero_or_pos position with rfl | hpos
    · exact Or.inl rfl
    · exact Or.inr (Text.head?_toDigits_ne hpos)

theorem index?_key_toString {position : Nat} (hword : position < 2 ^ 64) :
    (Segment.key (toString position)).index? = some position := by
  rw [index?, Text.toList_toString_nat, if_pos (isCanonicalIndex_toDigits position),
    Text.readUnsigned?_toDigits hword]

theorem index?_key_eq_some_iff {name : String} {position : Nat} (hword : position < 2 ^ 64) :
    (Segment.key name).index? = some position ↔ (Segment.index position).keyName = name := by
  constructor
  · intro hindex
    have hname : name = toString position := keyName_of_index? hindex
    rw [keyName, hname]
  · rintro rfl
    exact index?_key_toString hword

/-- Two segments are the same one, or an index and the key that is its decimal form. -/
inductive Alike : Segment → Segment → Prop
  | same (segment : Segment) : Alike segment segment
  | key_index {position : Nat} (hword : position < 2 ^ 64) :
      Alike (.key (toString position)) (.index position)
  | index_key {position : Nat} (hword : position < 2 ^ 64) :
      Alike (.index position) (.key (toString position))

namespace Alike

variable {segment other : Segment}

theorem keyName_eq (halike : Alike segment other) : segment.keyName = other.keyName := by
  cases halike <;> rfl

theorem index?_eq (halike : Alike segment other) : segment.index? = other.index? := by
  cases halike with
  | same => rfl
  | key_index hword => exact index?_key_toString hword
  | index_key hword => exact (index?_key_toString hword).symm

/-- Segments that are no index are alike only if they are the same. -/
theorem eq_of_index?_eq_none (halike : Alike segment other) (hindex : segment.index? = none) :
    segment = other := by
  cases halike with
  | same => rfl
  | key_index hword =>
      rw [index?_key_toString hword] at hindex
      cases hindex
  | index_key hword => cases hindex

end Alike

end Segment

/-- The same error about a path that is written differently. -/
def PathError.about (path : String) : PathError → PathError
  | .invalid _ fault => .invalid path fault
  | .tooFar _ position => .tooFar path position
  | .notFound _ => .notFound path
  | .mismatch _ expected found => .mismatch path expected found

namespace Value

def Written.about (path : String) (written : Written) : Written :=
  ⟨written.value, written.failure.map (PathError.about path)⟩

variable {segment other : Segment}

theorem step?_eq_of_alike (halike : segment.Alike other) (container : Value) :
    container.step? segment = container.step? other := by
  cases container with
  | array items => rw [step?, step?, halike.index?_eq]
  | object fields => rw [step?, step?, halike.keyName_eq]
  | _ => rfl

theorem orContainer_eq_of_alike (halike : segment.Alike other) (old : Value) :
    old.orContainer segment = old.orContainer other := by
  cases old with
  | array items => rfl
  | object fields => rfl
  | _ => simp only [orContainer, halike.index?_eq]

theorem fill_eq_of_alike (halike : segment.Alike other) (container child : Value) :
    container.fill segment child = container.fill other child := by
  cases container with
  | array items => rw [fill, fill, halike.index?_eq]
  | object fields => rw [fill, fill, halike.keyName_eq]
  | _ => rfl

/-- A refusal names the segment only where it is no index, and there both are the same. -/
theorem refusal?_eq_of_alike (halike : segment.Alike other) (path shown : String)
    (container : Value) :
    container.refusal? shown other =
      (container.refusal? path segment).map (PathError.about shown) := by
  cases container with
  | array items =>
      rw [refusal?, refusal?, ← halike.index?_eq]
      cases hindex : segment.index? with
      | none =>
          rw [halike.eq_of_index?_eq_none hindex]
          rfl
      | some position =>
          simp only
          split <;> rfl
  | object fields => rfl
  | _ => rfl

theorem foldlM_step?_eq_of_alike {segments others : List Segment}
    (halike : List.Forall₂ Segment.Alike segments others) (value : Value) :
    segments.foldlM step? value = others.foldlM step? value := by
  induction halike generalizing value with
  | nil => rfl
  | cons hfirst _ ih =>
      rw [List.foldlM_cons, List.foldlM_cons, step?_eq_of_alike hfirst]
      exact bind_congr ih

theorem write_eq_of_alike {segments others : List Segment}
    (halike : List.Forall₂ Segment.Alike segments others) (path shown : String)
    (new old : Value) :
    write shown new others old = (write path new segments old).about shown := by
  induction halike generalizing old with
  | nil => rfl
  | @cons segment other rest more hfirst _ ih =>
      have hcontainer := orContainer_eq_of_alike hfirst old
      have hrefusal := refusal?_eq_of_alike hfirst path shown (old.orContainer segment)
      cases hopen : (old.orContainer segment).refusal? path segment with
      | some failure =>
          rw [hopen, Option.map_some] at hrefusal
          rw [write_cons_of_refused hcontainer.symm hrefusal, write_cons_of_refused rfl hopen]
          rfl
      | none =>
          rw [hopen, Option.map_none] at hrefusal
          rw [write_cons_of_open hcontainer.symm hrefusal, write_cons_of_open rfl hopen, ih,
            ← step?_eq_of_alike hfirst]
          simp only [Written.within, Written.about, fill_eq_of_alike hfirst]

/-- **Numeric keys and indices are interchangeable.** A key addresses an index exactly when it is the
decimal form of the index. Paths that differ in this alone are read alike, and a write along either
leaves the same value and succeeds or fails with the same error, but for the path that it shows. -/
theorem numeric_keys_as_indices :
    (∀ name position, position < 2 ^ 64 →
      ((Segment.key name).index? = some position ↔ (Segment.index position).keyName = name)) ∧
    ∀ (target new : Value) (path other : Path),
      List.Forall₂ Segment.Alike path.segments other.segments →
      target.get? path = target.get? other ∧ target.has path = target.has other ∧
      (target.put path new).value = (target.put other new).value ∧
      (target.put other new).failure =
        (target.put path new).failure.map (PathError.about other.text) := by
  refine ⟨fun name position hword => Segment.index?_key_eq_some_iff hword,
    fun target new path other halike => ?_⟩
  have hget : target.get? path = target.get? other := foldlM_step?_eq_of_alike halike target
  have hput : target.put other new = (target.put path new).about other.text :=
    write_eq_of_alike halike path.text other.text new target
  refine ⟨hget, ?_, ?_, ?_⟩
  · rw [has, has, hget]
  · rw [hput]
    rfl
  · rw [hput]
    rfl

/-- The largest index as a key, a key with a superfluous zero, and two forms of one path along which
a write makes an array, grows it and then goes too far. -/
theorem numeric_keys_as_indices_too_far :
    let target : Value := .object [("rows", .bool true)]
    let path : Path := ⟨"rows.1[70000]", [.key "rows", .key "1", .index 70000]⟩
    let other : Path := ⟨"rows[1].70000", [.key "rows", .index 1, .key "70000"]⟩
    let left : Value := .object [("rows", .array [.null, .array []])]
    (Segment.key "18446744073709551615").index? = some (2 ^ 64 - 1) ∧
      (Segment.key "01").index? ≠ some 1 ∧
      List.Forall₂ Segment.Alike path.segments other.segments ∧
      target.get? path = target.get? other ∧ target.has path = target.has other ∧
      target.put path .null = ⟨left, some (.tooFar path.text 70000)⟩ ∧
      target.put other .null = ⟨left, some (.tooFar other.text 70000)⟩ := by
  intro target path other left
  obtain ⟨hindex, halike⟩ := numeric_keys_as_indices
  have hone : Segment.Alike (.key "1") (.index 1) := @Segment.Alike.key_index 1 (by decide)
  have hfar : Segment.Alike (.index 70000) (.key "70000") :=
    @Segment.Alike.index_key 70000 (by decide)
  have hsegments : List.Forall₂ Segment.Alike path.segments other.segments :=
    .cons (.same _) (.cons hone (.cons hfar .nil))
  obtain ⟨hget, hhas, hvalue, hfailure⟩ := halike target .null path other hsegments
  have hleft : target.put path .null = ⟨left, some (.tooFar path.text 70000)⟩ := rfl
  rw [hleft] at hvalue hfailure
  refine ⟨(hindex _ _ (by decide)).mpr rfl, fun hzero => ?_, hsegments, hget, hhas, hleft, ?_⟩
  · exact absurd ((hindex "01" 1 (by decide)).mp hzero) (by decide)
  · calc target.put other .null
        = ⟨(target.put other .null).value, (target.put other .null).failure⟩ := rfl
      _ = ⟨left, some (.tooFar other.text 70000)⟩ := by rw [← hvalue, hfailure]; rfl

end Value

end Reshape
