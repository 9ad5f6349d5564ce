import Mathlib.Data.List.Basic
import Reshape.Json.Reader
import Reshape.Json.Writer
import Reshape.Proofs.Text.Numeral

/-!
# Strings and whole numbers in JSON text

What is written for a string or a whole number is read back from in front of whatever follows it
there.
-/

namespace Reshape.Json

open Text

/-! ### Strings -/

section Strings

variable (read rest : List Char) (offset : Nat)

theorem readString_plainEscape {escape c : Char} (hescape : plainEscape? escape = some c) :
    readString read ('\\' :: escape :: rest) offset = readString (c :: read) rest (offset + 2) := by
  have hne : escape ≠ 'u' := by
    rintro rfl
    cases hescape
  rw [readString, hescape]
  · exact fun _ _ _ _ _ hu _ => hne hu
  · exact hne

theorem readString_hexEscape {a b c d : Char} {code : Nat}
    (hcode : hexDigits? [a, b, c, d] = some code) (hlow : code < 0xD800) :
    readString read ('\\' :: 'u' :: a :: b :: c :: d :: rest) offset =
      readString (Char.ofNat code :: read) rest (offset + 6) := by
  have htrailing : ¬ isTrailingSurrogate code = true := by
    simp only [isTrailingSurrogate, Bool.and_eq_true, decide_eq_true_eq]
    omega
  have hleading : ¬ isLeadingSurrogate code = true := by
    simp only [isLeadingSurrogate, Bool.and_eq_true, decide_eq_true_eq]
    omega
  simp only [readString, hcode, if_neg htrailing, if_neg hleading]

theorem readString_unescaped {c : Char} (hquote : c ≠ '"') (hbackslash : c ≠ '\\')
    (hcontrol : ¬ c.toNat < 0x20) :
    readString read (c :: rest) offset = readString (c :: read) rest (offset + c.utf8Size) := by
  rw [readString, if_neg hcontrol]
  · exact hquote
  · exact fun _ _ _ _ _ h _ => hbackslash h
  · exact fun _ h _ => hbackslash h
  · exact fun h _ => hbackslash h
  · exact fun _ _ h _ => hbackslash h

theorem plainEscape?_of_shortEscape? {c letter : Char} (hshort : shortEscape? c = some letter) :
    plainEscape? letter = some c := by
  have hchar : ∀ code, c.toNat = code → some (Char.ofNat code) = some c := by
    rintro code rfl
    rw [Char.ofNat_toNat]
  unfold shortEscape? at hshort
  split at hshort
  case h_6 => cases hshort
  all_goals
    next hcode =>
      obtain rfl := Option.some.inj hshort
      exact hchar _ hcode

theorem hexDigits?_of_lt {code : Nat} (hcontrol : code < 0x20) :
    hexDigits? ['0', '0', Nat.digitChar (code / 16), Nat.digitChar (code % 16)] = some code := by
  revert code
  decide

theorem readString_encodeChar (c : Char) :
    ∃ next, readString read (encodeChar c ++ rest) offset = readString (c :: read) rest next := by
  unfold encodeChar
  split
  · next hmark =>
      have hescape : plainEscape? c = some c := by
        rcases hmark with rfl | rfl <;> rfl
      exact ⟨_, readString_plainEscape read rest offset hescape⟩
  · next hmark =>
      rw [not_or] at hmark
      split
      · next hcontrol =>
          split
          · next hshort =>
              have hescape := plainEscape?_of_shortEscape? hshort
              exact ⟨_, readString_plainEscape read rest offset hescape⟩
          · have hdigits := hexDigits?_of_lt hcontrol
            have hread := readString_hexEscape read rest offset hdigits (by omega)
            rw [Char.ofNat_toNat] at hread
            exact ⟨_, hread⟩
      · next hcontrol =>
          exact ⟨_, readString_unescaped read rest offset hmark.1 hmark.2 hcontrol⟩

theorem readString_flatMap_encodeChar (chars : List Char) :
    ∃ next, readString read (chars.flatMap encodeChar ++ '"' :: rest) offset =
      .ok (String.ofList (read.reverse ++ chars), ⟨rest, next⟩) := by
  induction chars generalizing read offset with
  | nil =>
      rw [List.append_nil]
      exact ⟨offset + 1, rfl⟩
  | cons c more ih =>
      obtain ⟨behind, hchar⟩ :=
        readString_encodeChar read (more.flatMap encodeChar ++ '"' :: rest) offset c
      obtain ⟨next, hmore⟩ := ih (c :: read) behind
      refine ⟨next, ?_⟩
      rw [List.flatMap_cons, List.append_assoc, hchar, hmore, List.reverse_cons, List.append_assoc,
        List.singleton_append]

/-- The characters of a string behind its opening quote, with the closing one. -/
def stringTail (text : String) : List Char :=
  text.toList.flatMap encodeChar ++ ['"']

theorem encodeString_append (text : String) :
    encodeString text ++ rest = '"' :: (stringTail text ++ rest) :=
  rfl

theorem readString_stringTail (text : String) :
    ∃ next, readString [] (stringTail text ++ rest) offset = .ok (text, ⟨rest, next⟩) := by
  obtain ⟨next, hread⟩ := readString_flatMap_encodeChar [] rest offset text.toList
  refine ⟨next, ?_⟩
  rw [stringTail, List.append_assoc, List.singleton_append, hread, List.reverse_nil,
    List.nil_append, String.ofList_toList]

end Strings

/-! ### Whole numbers -/

/-- Behind a value stands nothing, or what goes on with the container around it or closes it. -/
def Ends (rest : List Char) : Prop :=
  ∀ c, rest.head? = some c → c = ',' ∨ c = ']' ∨ c = '}'

variable {rest : List Char}

theorem Ends.not_isDigit (hends : Ends rest) {c : Char} (hhead : rest.head? = some c) :
    c.isDigit = false := by
  rcases hends c hhead with rfl | rfl | rfl <;> decide

theorem encode_integer (n : Int) :
    encode (.integer n) = (if n < 0 then ['-'] else []) ++ Nat.toDigits 10 n.natAbs := by
  rw [Value.integer, encode]
  exact toList_toString_int n

theorem spanDigits_toDigits (hends : Ends rest) (n offset : Nat) :
    ∃ next, spanDigits ⟨Nat.toDigits 10 n ++ rest, offset⟩ =
      (Nat.toDigits 10 n, ⟨rest, next⟩) := by
  obtain ⟨htake, hdrop⟩ := span_isDigit (isDigit_toDigits n) fun _ => hends.not_isDigit
  simp only [spanDigits, htake, hdrop]
  exact ⟨_, rfl⟩

theorem readWhole_of_ne_zero {c : Char} (hdigit : c.isDigit = true) (hzero : c ≠ '0')
    (chars : List Char) (offset : Nat) :
    readWhole ⟨c :: chars, offset⟩ = .ok (spanDigits ⟨c :: chars, offset⟩) := by
  have hvalue : isDigit c = true := by
    rwa [isDigit_eq]
  simp [readWhole, hvalue]

theorem readWhole_toDigits (hends : Ends rest) (n offset : Nat) :
    ∃ next, readWhole ⟨Nat.toDigits 10 n ++ rest, offset⟩ =
      .ok (Nat.toDigits 10 n, ⟨rest, next⟩) := by
  rcases Nat.eq_zero_or_pos n with rfl | hpos
  · refine ⟨offset + 1, ?_⟩
    cases rest with
    | nil => rfl
    | cons c more =>
        have hstop : ¬ isDigit c = true := by
          rw [isDigit_eq, hends.not_isDigit rfl]
          decide
        exact if_neg hstop
  · obtain ⟨first, more, hrun, hdigit⟩ := exists_toDigits_eq_cons n
    have hzero : first ≠ '0' := by
      rintro rfl
      exact head?_toDigits_ne hpos (by rw [hrun, List.head?_cons])
    obtain ⟨next, hspan⟩ := spanDigits_toDigits hends n offset
    refine ⟨next, ?_⟩
    rw [← hspan, hrun]
    exact readWhole_of_ne_zero hdigit hzero (more ++ rest) offset

theorem digitsValue_toDigits (n : Nat) : digitsValue (Nat.toDigits 10 n) = n := by
  have hdigits : ∀ c ∈ Nat.toDigits 10 n, digitValue? 10 c = some (c.toNat - '0'.toNat) := by
    intro c hmem
    rw [digitValue?_ten, if_pos (isDigit_toDigits n c hmem)]
  rw [digitsValue, List.filterMap_eq_map_iff_forall_eq_some.mpr hdigits, ofDigits_map_toNat,
    Nat.ofDigitChars_ten_toDigits]

theorem readNumber_toDigits (hends : Ends rest) (negative : Bool) (n offset : Nat) :
    ∃ next, readNumber negative ⟨Nat.toDigits 10 n ++ rest, offset⟩ =
      finishWhole negative n ⟨rest, next⟩ := by
  obtain ⟨next, hwhole⟩ := readWhole_toDigits hends n offset
  refine ⟨next, ?_⟩
  simp only [readNumber, hwhole, bind, Except.bind, digitsValue_toDigits]
  cases rest with
  | nil => rfl
  | cons c more =>
      -- neither a point nor an exponent goes on with the digits
      rcases hends c rfl with rfl | rfl | rfl <;> rfl

theorem finishWhole_natAbs {n : Int} (hlow : -2 ^ 63 ≤ n) (hhigh : n < 2 ^ 64) (next : Input) :
    finishWhole (decide (n < 0)) n.natAbs next = .ok (.integer n, next) := by
  have hvalue : (if decide (n < 0) = true then -(n.natAbs : Int) else n.natAbs) = n := by
    rcases Int.lt_or_le n 0 with hnegative | hnatural
    · rw [if_pos (decide_eq_true hnegative), Int.ofNat_natAbs_of_nonpos (Int.le_of_lt hnegative),
        Int.neg_neg]
    · rw [if_neg (by simpa using hnatural), Int.natAbs_of_nonneg hnatural]
  have hzero : ¬ (decide (n < 0) && n.natAbs == 0) = true := by
    simp only [Bool.and_eq_true, decide_eq_true_eq, beq_iff_eq]
    omega
  have hfits : (fitsUnsigned 64 n || fitsSigned 64 n) = true := by
    simp only [fitsUnsigned, Bool.or_eq_true, Bool.and_eq_true, decide_eq_true_eq,
      fitsSigned_eq_true_iff, Nat.one_shiftLeft]
    omega
  unfold finishWhole
  simp only [hvalue, if_neg hzero, if_pos hfits]

end Reshape.Json
