import Mathlib.Logic.Function.Iterate
import Reshape.Filter.Convert
import Reshape.Proofs.Json.Container
import Reshape.Proofs.Value.Nesting

/-!
# From values to JSON text and back

The text of a value is read back as that value, up to the bound on nesting that only the reader has.
-/

namespace Reshape

namespace Json

variable {rest : List Char}

theorem readValue_of_isDigit {c : Char} (hdigit : c.isDigit = true) (depth : Nat)
    (chars : List Char) (offset : Nat) :
    readValue depth ⟨c :: chars, offset⟩ = readNumber false ⟨c :: chars, offset⟩ := by
  have hblank : Input.isBlank c = false := by
    simp [Input.isBlank, Text.ne_of_isDigit hdigit]
  have hvalue : Text.isDigit c = true := by
    rwa [Text.isDigit_eq]
  rw [readValue]
  simp [hblank, Text.ne_of_isDigit hdigit, hvalue]

theorem readValue_integer {n : Int} (hlow : -2 ^ 63 ≤ n) (hhigh : n < 2 ^ 64) (hends : Ends rest)
    (depth offset : Nat) :
    ∃ next, readValue depth ⟨encode (.integer n) ++ rest, offset⟩ =
      .ok (.integer n, ⟨rest, next⟩) := by
  have hvalue := finishWhole_natAbs hlow hhigh
  rw [encode_integer]
  split
  · next hnegative =>
      obtain ⟨next, hread⟩ := readNumber_toDigits hends true n.natAbs (offset + 1)
      rw [decide_eq_true hnegative] at hvalue
      rw [hvalue] at hread
      refine ⟨next, ?_⟩
      rw [← hread, readValue]
      rfl
  · next hnegative =>
      obtain ⟨next, hread⟩ := readNumber_toDigits hends false n.natAbs offset
      obtain ⟨c, more, hrun, hdigit⟩ := Text.exists_toDigits_eq_cons n.natAbs
      rw [decide_eq_false hnegative] at hvalue
      rw [hvalue] at hread
      refine ⟨next, ?_⟩
      rw [← hread, List.nil_append, hrun, List.cons_append, readValue_of_isDigit hdigit]

theorem readValue_string (text : String) (rest : List Char) (depth offset : Nat) :
    ∃ next, readValue depth ⟨encode (.string text) ++ rest, offset⟩ =
      .ok (.string text, ⟨rest, next⟩) := by
  obtain ⟨next, hread⟩ := readString_stringTail rest (offset + 1) text
  refine ⟨next, ?_⟩
  rw [encode, encodeString_append, readValue]
  change (readString [] (stringTail text ++ rest) (offset + 1) >>= fun found =>
    Except.ok (Value.string found.1, found.2)) = _
  rw [hread]
  rfl

theorem reads_readValue_array {items : List Value} (hexact : ∀ item ∈ items, item.IsExact)
    (hitems : ∀ item ∈ items, ∀ depth rest offset, Ends rest →
      Reads (item.nesting ≤ depth) item rest (readValue depth ⟨encode item ++ rest, offset⟩))
    (depth : Nat) (rest : List Char) (offset : Nat) :
    Reads ((Value.array items).nesting ≤ depth) (.array items) rest
      (readValue depth ⟨encode (.array items) ++ rest, offset⟩) := by
  have hread := fun less => exists_reads_array hexact fun item hmem => hitems item hmem less
  cases depth with
  | zero =>
      obtain ⟨chars, htext, -⟩ := hread 0
      rw [htext, List.cons_append, readValue]
      exact .tooDeep (Nat.not_succ_le_zero _) (offset + 1)
  | succ depth =>
      obtain ⟨chars, htext, hread⟩ := hread depth
      have hall := hread rest (chars ++ rest).length (offset + 1) (by simp)
      rw [htext, List.cons_append, readValue]
      exact (hall.map Value.array).congr Value.nesting_array_le_succ_iff.symm

theorem reads_readValue_object {fields : Fields Value} (hkeys : (Fields.keys fields).Nodup)
    (hentries : ∀ field ∈ fields, ∀ depth rest offset, Ends rest → Reads (field.2.nesting ≤ depth)
      field.2 rest (readValue depth ⟨encode field.2 ++ rest, offset⟩))
    (depth : Nat) (rest : List Char) (offset : Nat) :
    Reads ((Value.object fields).nesting ≤ depth) (.object fields) rest
      (readValue depth ⟨encode (.object fields) ++ rest, offset⟩) := by
  have hread := fun less =>
    exists_reads_object (fun field hmem => hentries field hmem less) hkeys
  cases depth with
  | zero =>
      obtain ⟨chars, htext, -⟩ := hread 0
      rw [htext, List.cons_append, readValue]
      exact .tooDeep (Nat.not_succ_le_zero _) (offset + 1)
  | succ depth =>
      obtain ⟨chars, htext, hread⟩ := hread depth
      have hall := hread rest (chars ++ rest).length (offset + 1) (by simp)
      rw [htext, List.cons_append, readValue]
      exact (hall.map Value.object).congr Value.nesting_object_le_succ_iff.symm

/-- A value in front of whatever may stand behind it is read exactly where it nests no deeper than
the reader goes. -/
theorem reads_readValue {value : Value} (hexact : value.IsExact) (depth : Nat) (rest : List Char)
    (offset : Nat) (hends : Ends rest) :
    Reads (value.nesting ≤ depth) value rest (readValue depth ⟨encode value ++ rest, offset⟩) := by
  induction value generalizing depth rest offset with
  | null =>
      rw [readValue]
      exact .value (Nat.zero_le depth) (offset + 4)
  | bool flag =>
      cases flag with
      | true =>
          rw [readValue]
          exact .value (Nat.zero_le depth) (offset + 4)
      | false =>
          rw [readValue]
          exact .value (Nat.zero_le depth) (offset + 5)
  | number n =>
      cases hexact with
      | integer hlow hhigh =>
          obtain ⟨next, hread⟩ := readValue_integer hlow hhigh hends depth offset
          rw [← Value.integer, hread]
          exact .value (Nat.zero_le depth) next
  | string text =>
      obtain ⟨next, hread⟩ := readValue_string text rest depth offset
      rw [hread]
      exact .value (Nat.zero_le depth) next
  | array items ih =>
      cases hexact with
      | array hitems =>
          exact reads_readValue_array hitems (fun item hmem => ih item hmem (hitems item hmem))
            depth rest offset
  | object fields ih =>
      cases hexact with
      | object hkeys hentries =>
          exact reads_readValue_object hkeys
            (fun field hmem => ih field hmem (hentries field hmem)) depth rest offset

/-- The text of a value is read as that value, or refused because it nests too deep. -/
theorem read_render {value : Value} (hexact : value.IsExact) :
    (value.nesting ≤ maxDepth → read (render value) = .ok value) ∧
    (maxDepth < value.nesting →
      ∃ error, read (render value) = .error error ∧ error.fault = .nestedTooDeep) := by
  have hread := reads_readValue hexact maxDepth [] 0 nofun
  rw [List.append_nil] at hread
  generalize hresult : readValue maxDepth ⟨encode value, 0⟩ = result at hread
  simp only [read, readFront, render, String.toList_ofList, hresult]
  cases hread with
  | value hfits offset => exact ⟨fun _ => rfl, fun hdeep => absurd hfits (Nat.not_le.mpr hdeep)⟩
  | tooDeep hdeep offset => exact ⟨fun hfits => absurd hfits hdeep, fun _ => ⟨_, rfl, rfl⟩⟩

end Json

namespace Filter

/-- **Text of a value leads back to it.** Writing a value as text succeeds, and reading the text
gives the same value with the keys of its objects in the same order, unless containers nest deeper
than the reader goes: then it fails as too deep JSON. -/
theorem toObject_stringify {value : Value} (hexact : value.IsExact) :
    ∃ text, (∀ source args, stringify value source args = .ok (.string text)) ∧
      (value.nesting ≤ 127 → ∀ source args, toObject (.string text) source args = .ok value) ∧
      (128 ≤ value.nesting → ∃ error, error.fault = .nestedTooDeep ∧
        ∀ source args, toObject (.string text) source args = .error (.json error)) := by
  obtain ⟨hfits, hdeep⟩ := Json.read_render hexact
  refine ⟨Json.render value, fun _ _ => rfl, fun hnesting source args => ?_, fun hnesting => ?_⟩
  · rw [toObject, hfits hnesting]
    rfl
  · obtain ⟨error, hread, hfault⟩ := hdeep hnesting
    refine ⟨error, hfault, fun source args => ?_⟩
    rw [toObject, hread]
    rfl

/-- Escapes in a key and in a text, the ends of the range of whole numbers and empty containers come
back; arrays nested one deeper than the reader goes do not. -/
theorem toObject_stringify_escapes :
    let value : Value := .object [("\x00\"\\", .array [.integer (-2 ^ 63), .integer (2 ^ 64 - 1)]),
      ("", .array [.array [], .object []]), ("\x1fé\t", .string "/\n\x7f")]
    let deep : Value := (fun inner => .array [inner])^[128] .null
    (∃ text, stringify value .null [] = .ok (.string text) ∧
      toObject (.string text) .null [] = .ok value) ∧
    ∃ text error, stringify deep .null [] = .ok (.string text) ∧
      toObject (.string text) .null [] = .error (.json error) := by
  intro value deep
  have hvalue : value.IsExact := by
    have hwords : ∀ item ∈ [Value.integer (-2 ^ 63), .integer (2 ^ 64 - 1)], item.IsExact := by
      simp only [List.forall_mem_cons]
      exact ⟨.integer (by decide) (by decide), .integer (by decide) (by decide), nofun⟩
    have hempty : ∀ item ∈ [Value.array [], .object []], item.IsExact := by
      simp only [List.forall_mem_cons]
      exact ⟨.array nofun, .object .nil nofun, nofun⟩
    refine .object (by decide) ?_
    simp only [List.forall_mem_cons]
    exact ⟨.array hwords, .array hempty, .string _, nofun⟩
  have hdeep : deep.IsExact :=
    Function.Iterate.rec Value.IsExact .null (fun _ hinner => .array (by simpa using hinner)) 128
  obtain ⟨text, hstringify, htoObject, -⟩ := toObject_stringify hvalue
  obtain ⟨deepText, hstringifyDeep, -, htoObjectDeep⟩ := toObject_stringify hdeep
  obtain ⟨error, -, hrefused⟩ := htoObjectDeep (by decide +kernel)
  exact ⟨⟨text, hstringify .null [], htoObject (by decide) .null []⟩,
    deepText, error, hstringifyDeep .null [], hrefused .null []⟩

end Filter

end Reshape
