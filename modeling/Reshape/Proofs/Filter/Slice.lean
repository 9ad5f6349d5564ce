import Reshape.Filter.Collection
import Reshape.Proofs.Except
import Reshape.Proofs.List
import Reshape.Proofs.Text.Digits

/-!
# Positions in a list

A bound of a slice counts from the end when it is negative, and is then held between the ends. An
index counts in the same way but names nothing beyond the ends, so that inside them it names the first
element of the slice that begins there. A list whose length is a word leaves every sum in the words.
-/

namespace Reshape

/-- An argument that is read as a whole number wherever it stands. -/
def Arg.ReadsAs (arg : Arg) (n : Int) : Prop :=
  ∀ args position, args[position]? = some arg → Filter.word? args position = .ok (some n)

namespace Filter

open Text

/-! ### Whole numbers as arguments -/

section Arguments

variable {n : Int} {arg : Arg} {args : List Arg} {position : Nat}

theorem value?_of_getElem? {v : Value} (harg : args[position]? = some (.value v)) :
    value? args position = .ok (some v) := by
  rw [value?, harg]

theorem wordOf_integer (hfits : fitsSigned 64 n = true) : wordOf (.integer n) = n := by
  have hbounds := fitsSigned_eq_true_iff.mp hfits
  change max minWord (min maxWord n) = n
  unfold minWord maxWord
  omega

theorem readsAs_integer (hfits : fitsSigned 64 n = true) : (Arg.value (.integer n)).ReadsAs n := by
  intro args position harg
  rw [word?, value?_of_getElem? harg]
  exact congrArg (Except.ok ∘ some) (wordOf_integer hfits)

theorem readsAs_ofText {text : String} (hread : readSigned? 64 10 (trim text.toList) = some n) :
    (Arg.ofText text).ReadsAs n := by
  intro args position harg
  rw [word?, value?_of_getElem? harg]
  simp only [bind, Except.bind, hread]
  rfl

theorem fitsSigned_wordOf (number : Number) : fitsSigned 64 (wordOf number) = true := by
  rw [fitsSigned_eq_true_iff]
  unfold wordOf minWord maxWord
  dsimp only
  omega

/-- What is read as a whole number is a signed word. -/
theorem fitsSigned_of_word? (hword : word? args position = .ok (some n)) :
    fitsSigned 64 n = true := by
  obtain ⟨found, -, hfound⟩ := bind_eq_ok_iff.mp hword
  cases found with
  | none => cases hfound
  | some v =>
      cases v with
      | number number =>
          cases hfound
          exact fitsSigned_wordOf number
      | string text =>
          simp only at hfound
          split at hfound
          · next m hread =>
              cases hfound
              exact (Option.filter_eq_some_iff.mp hread).2
          · cases hfound
      | _ => cases hfound

theorem fitsSigned_of_readsAs (harg : arg.ReadsAs n) : fitsSigned 64 n = true :=
  fitsSigned_of_word? (harg [arg] 0 rfl)

end Arguments

/-! ### Places -/

/-- The place that a bound stands for: counted from the end if it is negative, and held between the
ends. -/
def placeOf (bound : Int) (length : Nat) : Nat :=
  (max 0 (min (length : Int) (if bound < 0 then bound + length else bound))).toNat

theorem clampBound_eq_placeOf (bound : Int) (length : Nat) :
    clampBound bound length = placeOf bound length := by
  unfold clampBound placeOf
  split <;> omega

theorem placeOf_le (bound : Int) (length : Nat) : placeOf bound length ≤ length := by
  unfold placeOf
  omega

/-- In range, an index names the place that it stands for as a bound. -/
theorem position?_eq (index : Int) (length : Nat) :
    position? index length =
      if -(length : Int) ≤ index ∧ index < length then some (placeOf index length) else none := by
  unfold position? placeOf
  generalize hresolved : (if index < 0 then index + length else index) = resolved
  have hrange : 0 ≤ resolved ∧ resolved < length ↔ -(length : Int) ≤ index ∧ index < length := by
    split at hresolved <;> omega
  simp only [hrange]
  split
  · next hinside =>
      have hplace : max 0 (min (length : Int) resolved) = resolved := by
        omega
      rw [hplace]
  · rfl

/-! ### Sums as words -/

/-- The sum of two signed words, unless it is none. -/
def addSigned? (a b : Int) : Option Int :=
  if fitsSigned 64 (a + b) then some (a + b) else none

/-- A bound held between the ends, reckoned in words. Nothing is the result of an overflow. -/
def clampBoundInWords? (bound : Int) (length : Nat) : Option Nat :=
  if bound < 0 then (addSigned? length bound).map fun sum => (max sum 0).toNat
  else some (min bound length).toNat

/-- The position that an index names, reckoned in words. Nothing is the result of an overflow; that
an index names no position is an answer. -/
def positionInWords? (index : Int) (length : Nat) : Option (Option Nat) :=
  (if index < 0 then addSigned? index length else some index).map fun resolved : Int =>
    if 0 ≤ resolved ∧ resolved < length then some resolved.toNat else none

section Words

variable {n : Int} {length : Nat}

theorem addSigned?_of_neg (hneg : n < 0) (hfits : fitsSigned 64 n = true) (hlength : length < 2 ^ 63) :
    addSigned? length n = some (length + n) ∧ addSigned? n length = some (n + length) := by
  have hbounds := fitsSigned_eq_true_iff.mp hfits
  have hsum : fitsSigned 64 (length + n) = true := by
    rw [fitsSigned_eq_true_iff]
    omega
  rw [addSigned?, addSigned?, Int.add_comm n, if_pos hsum]
  exact ⟨rfl, rfl⟩

theorem clampBoundInWords?_eq (hfits : fitsSigned 64 n = true) (hlength : length < 2 ^ 63) :
    clampBoundInWords? n length = some (clampBound n length) := by
  unfold clampBoundInWords? clampBound
  split
  · next hneg =>
      rw [(addSigned?_of_neg hneg hfits hlength).1]
      rfl
  · rfl

theorem positionInWords?_eq (hfits : fitsSigned 64 n = true) (hlength : length < 2 ^ 63) :
    positionInWords? n length = some (position? n length) := by
  unfold positionInWords? position?
  split
  · next hneg =>
      rw [(addSigned?_of_neg hneg hfits hlength).2]
      rfl
  · rfl

end Words

/-! ### The filters -/

section Filters

variable {first second : Arg} {start stop : Int}

theorem slice_of_readsAs (hfirst : first.ReadsAs start) (hsecond : second.ReadsAs stop)
    (input source : Value) :
    slice input source [first, second] =
      .ok (.array ((input.elements.drop (placeOf start input.elements.length)).take
        (placeOf stop input.elements.length - placeOf start input.elements.length))) := by
  simp only [slice, hfirst [first, second] 0 rfl, hsecond [first, second] 1 rfl, bind, Except.bind,
    clampBound_eq_placeOf]
  rfl

theorem slice_to_end (hfirst : first.ReadsAs start) (input source : Value) :
    slice input source [first] =
      .ok (.array (input.elements.drop (placeOf start input.elements.length))) := by
  have hnone : word? [first] 1 = .ok none := rfl
  have hend : clampBound input.elements.length input.elements.length = input.elements.length := by
    unfold clampBound
    omega
  simp only [slice, hfirst [first] 0 rfl, hnone, bind, Except.bind, clampBound_eq_placeOf start,
    Option.getD_some, Option.getD_none, hend]
  rw [List.take_of_length_le (Nat.le_of_eq List.length_drop)]
  rfl

theorem child_of_readsAs (hfirst : first.ReadsAs start) (input source : Value) :
    child input source [first] =
      .ok (if -(input.elements.length : Int) ≤ start ∧ start < input.elements.length then
        (input.elements[placeOf start input.elements.length]?).getD .null else .null) := by
  simp only [child, hfirst [first] 0 rfl, bind, Except.bind, Option.getD_some, position?_eq]
  split <;> rfl

end Filters

/-- **Slices and indices count alike.** A slice holds the elements at the places from its first bound
up to its second, in order; one up to a bound and one from there on make up the whole list; and an
index in range names the first element of the slice from there on, one out of range nothing. All this
holds up to the ends of the signed words, and no sum leaves them. -/
theorem slice_and_child {first second bound zero : Arg} {start stop index : Int}
    (hfirst : first.ReadsAs start) (hsecond : second.ReadsAs stop) (hbound : bound.ReadsAs index)
    (hzero : zero.ReadsAs 0) (input source : Value) :
    let items := input.elements
    let low := placeOf start items.length
    let high := placeOf stop items.length
    (∃ part, slice input source [first, second] = .ok (.array part) ∧
      part.map some = (List.range' low (high - low)).map (items[·]?)) ∧
    (∃ front back, slice input source [zero, bound] = .ok (.array front) ∧
      slice input source [bound] = .ok (.array back) ∧ front ++ back = items ∧
      (-(items.length : Int) ≤ index ∧ index < items.length →
        ∃ item, back.head? = some item ∧ child input source [bound] = .ok item) ∧
      (¬ (-(items.length : Int) ≤ index ∧ index < items.length) →
        child input source [bound] = .ok .null)) ∧
    (items.length < 2 ^ 63 → ∀ n ∈ [start, stop, index],
      clampBoundInWords? n items.length = some (clampBound n items.length) ∧
      positionInWords? n items.length = some (position? n items.length)) := by
  intro items low high
  refine ⟨⟨_, slice_of_readsAs hfirst hsecond input source, ?_⟩,
    ⟨_, _, slice_of_readsAs hzero hbound input source, slice_to_end hbound input source, ?_,
      fun hinside => ?_, fun houtside => ?_⟩, fun hlength => ?_⟩
  · exact map_some_take_drop items (placeOf_le stop items.length)
  · have hstart : placeOf 0 items.length = 0 := by
      unfold placeOf
      omega
    rw [hstart, List.drop_zero, Nat.sub_zero, List.take_append_drop]
  · have hplace : placeOf index items.length < items.length := by
      unfold placeOf
      omega
    refine ⟨items[placeOf index items.length], ?_, ?_⟩
    · rw [List.head?_drop, List.getElem?_eq_getElem hplace]
    · rw [child_of_readsAs hbound, if_pos hinside, List.getElem?_eq_getElem hplace, Option.getD_some]
  · rw [child_of_readsAs hbound, if_neg houtside]
  · have hwords : ∀ n ∈ [start, stop, index], fitsSigned 64 n = true := by
      simp [fitsSigned_of_readsAs hfirst, fitsSigned_of_readsAs hsecond, fitsSigned_of_readsAs hbound]
    intro n hn
    exact ⟨clampBoundInWords?_eq (hwords n hn) hlength, positionInWords?_eq (hwords n hn) hlength⟩

/-- Four characters sliced between the least signed word, given as text, and the place before the last
one; the third character from the end begins the slice from there on. -/
theorem slice_and_child_least_word :
    let text : Value := .string "añ日😀"
    let least : Arg := .ofText " -9223372036854775808 "
    let last : Arg := .value (.integer (-1))
    let third : Arg := .value (.integer (-3))
    least.ReadsAs (-2 ^ 63) ∧ last.ReadsAs (-1) ∧ third.ReadsAs (-3) ∧
      (∃ part, slice text .null [least, last] = .ok (.array part) ∧
        part.map some = [text.elements[0]?, text.elements[1]?, text.elements[2]?]) ∧
      (∃ back, slice text .null [third] = .ok (.array back) ∧ back.head? = some (.string "ñ") ∧
        child text .null [third] = .ok (.string "ñ")) ∧
      clampBoundInWords? (-2 ^ 63) text.elements.length = some 0 := by
  intro text least last third
  have hleast : least.ReadsAs (-2 ^ 63) := readsAs_ofText (by decide)
  have hlast : last.ReadsAs (-1) := readsAs_integer (by decide)
  have hthird : third.ReadsAs (-3) := readsAs_integer (by decide)
  have hzero : (Arg.value (.integer 0)).ReadsAs 0 := readsAs_integer (by decide)
  obtain ⟨hpart, ⟨front, back, -, hback, -, hinside, -⟩, hwords⟩ :=
    slice_and_child hleast hlast hthird hzero text .null
  obtain ⟨item, hitem, hfound⟩ := hinside (by decide)
  have hchild : child text .null [third] = .ok (.string "ñ") := rfl
  obtain rfl : item = .string "ñ" := Except.ok.inj (hfound.symm.trans hchild)
  exact ⟨hleast, hlast, hthird, hpart, ⟨back, hback, hitem, hchild⟩,
    (hwords (by decide) _ List.mem_cons_self).1⟩

end Filter

end Reshape
