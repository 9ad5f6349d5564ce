import Reshape.Path
import Reshape.Proofs.Text.Digits

/-!
# Segments as indices and as keys

A segment that addresses an array element is, as a key, the decimal form of the index. Two segments
with the same key therefore never address different elements.
-/

namespace Reshape.Segment

theorem isCanonicalIndex_eq_true_iff {digits : List Char} :
    isCanonicalIndex digits = true ↔
      digits ≠ [] ∧ (∀ c ∈ digits, c.isDigit = true) ∧
        (digits = ['0'] ∨ digits.head? ≠ some '0') := by
  simp [isCanonicalIndex, Text.isDigit_eq, and_assoc]

theorem toDigits_of_isCanonicalIndex {digits : List Char}
    (hcanonical : isCanonicalIndex digits = true) :
    Nat.toDigits 10 (Nat.ofDigitChars 10 digits 0) = digits := by
  obtain ⟨hne, hdigits, hzero⟩ := isCanonicalIndex_eq_true_iff.mp hcanonical
  cases digits with
  | nil => exact absurd rfl hne
  | cons c rest =>
      rcases hzero with hzero | hzero
      · rw [hzero]
        rfl
      · refine Text.toDigits_ofDigitChars (fun heq => hzero ?_) hdigits
        rw [heq, List.head?_cons]

theorem keyName_of_index? {segment : Segment} {position : Nat}
    (hindex : segment.index? = some position) : segment.keyName = toString position := by
  cases segment with
  | index other => rw [keyName, Option.some.inj hindex]
  | key name =>
      rw [index?] at hindex
      split at hindex
      · next hcanonical =>
          obtain ⟨sign, digits, hsplit, hsign, -, -, rfl, -⟩ :=
            Text.readUnsigned?_ten_eq_some_iff.mp hindex
          have hdigits := (isCanonicalIndex_eq_true_iff.mp hcanonical).2.1
          obtain rfl : sign = [] := by
            rcases hsign with rfl | rfl
            · rfl
            · have hplus := hdigits '+' (by simp [hsplit])
              exact absurd hplus (by decide)
          rw [List.nil_append] at hsplit
          rw [keyName, Nat.toString_eq_ofList_toDigits, ← hsplit,
            toDigits_of_isCanonicalIndex hcanonical, String.ofList_toList]
      · cases hindex

/-- A key is an index only if it is a word. -/
theorem lt_two_pow_of_index?_key {name : String} {position : Nat}
    (hindex : (Segment.key name).index? = some position) : position < 2 ^ 64 := by
  rw [index?] at hindex
  split at hindex
  · obtain ⟨-, -, -, -, -, -, -, hword⟩ := Text.readUnsigned?_ten_eq_some_iff.mp hindex
    exact hword
  · cases hindex

theorem index?_unique {segment other : Segment} (hkey : segment.keyName = other.keyName)
    {position place : Nat} (hsegment : segment.index? = some position)
    (hother : other.index? = some place) : position = place := by
  rw [keyName_of_index? hsegment, keyName_of_index? hother, Nat.toString_eq_ofList_toDigits,
    Nat.toString_eq_ofList_toDigits, String.ofList_inj] at hkey
  calc position
      = Nat.ofDigitChars 10 (Nat.toDigits 10 position) 0 := Nat.ofDigitChars_ten_toDigits.symm
    _ = Nat.ofDigitChars 10 (Nat.toDigits 10 place) 0 := by rw [hkey]
    _ = place := Nat.ofDigitChars_ten_toDigits

end Reshape.Segment
