import Reshape.Filter.Convert
import Reshape.Proofs.Text.LongestNumeral

/-!
# The number at the front of a text

The number is looked for in the bytes of a text: a place moves on over digits, and falls back to
where a point or an exponent began that has none. The text is cut where the place ends up. All that
a numeral is made of are characters of one byte, and no byte of another character looks like one of
them, so that the cut is never inside a character and leaves the longest numeral.
-/

namespace Reshape.Filter

open Text Numeral

/-! ### Places in a text -/

def signEnd (cs : List Char) (start : Nat) : Nat :=
  if cs[start]? = some '+' ∨ cs[start]? = some '-' then start + 1 else start

def digitsEnd (cs : List Char) (start : Nat) : Nat :=
  if h : start < cs.length then
    if isDigit cs[start] then digitsEnd cs (start + 1) else start
  else start

def mantissaEnd? (cs : List Char) (start : Nat) : Option Nat :=
  let whole := digitsEnd cs start
  let fraction := digitsEnd cs (whole + 1)
  if cs[whole]? = some '.' ∧ (start < whole ∨ whole + 1 < fraction) then some fraction
  else if start < whole then some whole
  else none

def exponentEnd (cs : List Char) (start : Nat) : Nat :=
  let digits := signEnd cs (start + 1)
  let stop := digitsEnd cs digits
  if (cs[start]? = some 'e' ∨ cs[start]? = some 'E') ∧ digits < stop then stop else start

/-- The place where the numeral at the front ends. -/
def numeralEnd? (cs : List Char) : Option Nat :=
  (mantissaEnd? cs (signEnd cs 0)).map (exponentEnd cs)

/-- The bytes of a text, each as a character. -/
def byteChars (cs : List Char) : List Char :=
  (cs.flatMap String.utf8EncodeChar).map Char.ofUInt8

/-- What is before and behind a place counted in bytes, as long as it is not inside a character. -/
def splitAtByte? : List Char → Nat → Option (List Char × List Char)
  | cs, 0 => some ([], cs)
  | [], _ + 1 => none
  | c :: cs, n + 1 =>
    if c.utf8Size ≤ n + 1 then
      (splitAtByte? cs (n + 1 - c.utf8Size)).map fun (before, after) => (c :: before, after)
    else none

/-- The number at the front of a text, looked for in its bytes; no result where the text would be cut
inside a character. -/
def numberInBytes? (cs : List Char) : Option (Option Binary64) := do
  let text := trimLeft cs
  let bytes := byteChars text
  let (_, unsigned) ← splitAtByte? text (signEnd bytes 0)
  if "Infinity".toList.isPrefixOf unsigned then
    pure (some (.infinite (bytes.head? == some '-')))
  else match numeralEnd? bytes with
    | none => pure none
    | some stop =>
      let (numeral, _) ← splitAtByte? text stop
      pure (readNumber? numeral)

/-! ### Places and what remains -/

section Places

variable (cs : List Char) (start : Nat)

theorem drop_signEnd : cs.drop (signEnd cs start) = (readSign (cs.drop start)).2 := by
  rw [signEnd, ← List.head?_drop, apply_ite cs.drop, ← List.tail_drop]
  obtain ⟨sign, unsigned, negative, hsplit, hsigned⟩ := exists_sign_append (cs.drop start)
  rw [hsplit, hsigned.readSign_append]
  cases hsigned with
  | minus => exact if_pos (Or.inr rfl)
  | plus => exact if_pos (Or.inl rfl)
  | none hminus hplus => exact if_neg (not_or.mpr ⟨hplus, hminus⟩)

theorem digitsEnd_eq :
    digitsEnd cs start = start + ((cs.drop start).takeWhile isDigit).length := by
  fun_induction digitsEnd cs start with
  | case1 start hstart hdigit ih =>
      rw [ih, List.drop_eq_getElem_cons hstart, List.takeWhile_cons_of_pos hdigit, List.length_cons]
      omega
  | case2 start hstart hdigit =>
      rw [List.drop_eq_getElem_cons hstart, List.takeWhile_cons_of_neg hdigit]
      rfl
  | case3 start hstart =>
      rw [List.drop_eq_nil_of_le (by omega)]
      rfl

theorem lt_digitsEnd_iff :
    start < digitsEnd cs start ↔ (cs.drop start).takeWhile isDigit ≠ [] := by
  rw [digitsEnd_eq, Nat.lt_add_right_iff_pos, List.length_pos_iff]

theorem drop_digitsEnd : cs.drop (digitsEnd cs start) = (cs.drop start).dropWhile isDigit := by
  rw [digitsEnd_eq, ← List.drop_drop]
  generalize cs.drop start = rest
  have hdrop : (rest.takeWhile isDigit ++ rest.dropWhile isDigit).drop
      (rest.takeWhile isDigit).length = rest.dropWhile isDigit := List.drop_left
  rwa [List.takeWhile_append_dropWhile] at hdrop

theorem drop_mantissaEnd? :
    (mantissaEnd? cs start).map cs.drop =
      let ((whole, fraction), rest) := readMantissa (cs.drop start)
      if whole.isEmpty && fraction.isEmpty then none else some rest := by
  have hbehind : cs.drop (digitsEnd cs start + 1) =
      ((cs.drop start).dropWhile isDigit).tail := by
    rw [← List.tail_drop, drop_digitsEnd]
  have hwhole := drop_digitsEnd cs start
  have hfraction := drop_digitsEnd cs (digitsEnd cs start + 1)
  rw [hbehind] at hfraction
  simp only [mantissaEnd?, readMantissa, ← List.head?_drop, lt_digitsEnd_iff, hwhole, hbehind]
  by_cases hpoint : ((cs.drop start).dropWhile isDigit).head? = some '.'
  · obtain ⟨rest, hafter⟩ := List.head?_eq_some_iff.mp hpoint
    rw [hafter] at hfraction
    by_cases hdigits : (cs.drop start).takeWhile isDigit = [] ∧ rest.takeWhile isDigit = []
    · simp [readFraction, hafter, hdigits]
    · have hempty : ¬ (((cs.drop start).takeWhile isDigit).isEmpty &&
          (rest.takeWhile isDigit).isEmpty) = true := by
        rwa [Bool.and_eq_true, List.isEmpty_iff, List.isEmpty_iff]
      have hread : readFraction ((cs.drop start).takeWhile isDigit)
          ((cs.drop start).dropWhile isDigit) =
          (rest.takeWhile isDigit, rest.dropWhile isDigit) := by
        rw [hafter, readFraction_point hempty]
      have hany : (cs.drop start).takeWhile isDigit ≠ [] ∨
          ((cs.drop start).dropWhile isDigit).tail.takeWhile isDigit ≠ [] := by
        rw [hafter]
        exact not_and_or.mp hdigits
      simp only [if_pos (And.intro hpoint hany), hread, if_neg hempty, Option.map_some, hfraction,
        List.tail_cons]
  · by_cases hdigits : (cs.drop start).takeWhile isDigit = []
    · simp [readFraction_of_head?_ne hpoint, hpoint, hdigits]
    · simp [readFraction_of_head?_ne hpoint, hpoint, hdigits, hwhole]

theorem drop_exponentEnd :
    cs.drop (exponentEnd cs start) = (readExponent (cs.drop start)).2 := by
  simp only [exponentEnd, lt_digitsEnd_iff, drop_signEnd, apply_ite cs.drop, drop_digitsEnd,
    ← List.head?_drop, ← List.tail_drop]
  cases cs.drop start with
  | nil => rfl
  | cons mark rest =>
      by_cases hmark : mark = 'e' ∨ mark = 'E'
      · by_cases hdigits : (readSign rest).2.takeWhile isDigit = []
        · simp [readExponent, hmark, hdigits]
        · simp [readExponent, hmark, hdigits]
      · simp [readExponent, hmark]

theorem drop_numeralEnd? :
    (numeralEnd? cs).map cs.drop = (readLongest? cs).map Prod.snd := by
  have hmantissa := drop_mantissaEnd? cs (signEnd cs 0)
  rw [drop_signEnd, List.drop_zero] at hmantissa
  have hexponent : cs.drop ∘ exponentEnd cs = (fun rest => (readExponent rest).2) ∘ cs.drop :=
    funext (drop_exponentEnd cs)
  rw [numeralEnd?, Option.map_map, hexponent, ← Option.map_map, hmantissa, readLongest?_eq]
  dsimp only
  split <;> rfl

variable {cs start}

theorem lt_length_of_getElem? {c : Char} (hc : cs[start]? = some c) : start < cs.length :=
  (List.getElem?_eq_some_iff.mp hc).1

theorem signEnd_le (hstart : start ≤ cs.length) : signEnd cs start ≤ cs.length := by
  unfold signEnd
  split
  · next hsign => exact hsign.elim lt_length_of_getElem? lt_length_of_getElem?
  · exact hstart

theorem digitsEnd_le (hstart : start ≤ cs.length) : digitsEnd cs start ≤ cs.length := by
  have hlength := (List.takeWhile_prefix (l := cs.drop start) isDigit).length_le
  rw [List.length_drop] at hlength
  rw [digitsEnd_eq]
  omega

theorem mantissaEnd?_le {stop : Nat} (hstart : start ≤ cs.length)
    (hstop : mantissaEnd? cs start = some stop) : stop ≤ cs.length := by
  unfold mantissaEnd? at hstop
  dsimp only at hstop
  split at hstop
  · next hpoint =>
      obtain rfl := Option.some.inj hstop
      exact digitsEnd_le (lt_length_of_getElem? hpoint.1)
  · split at hstop
    · obtain rfl := Option.some.inj hstop
      exact digitsEnd_le hstart
    · cases hstop

theorem exponentEnd_le (hstart : start ≤ cs.length) : exponentEnd cs start ≤ cs.length := by
  unfold exponentEnd
  dsimp only
  split
  · next hmark =>
      have hbehind : start < cs.length := hmark.1.elim lt_length_of_getElem? lt_length_of_getElem?
      exact digitsEnd_le (signEnd_le hbehind)
  · exact hstart

theorem numeralEnd?_le {stop : Nat} (hstop : numeralEnd? cs = some stop) : stop ≤ cs.length := by
  obtain ⟨place, hplace, rfl⟩ := Option.map_eq_some_iff.mp hstop
  exact exponentEnd_le (mantissaEnd?_le (signEnd_le (Nat.zero_le _)) hplace)

theorem numeralEnd?_of_longest {numeral : List Char} (hlongest : Longest IsNumeral cs numeral) :
    numeralEnd? cs = some numeral.length := by
  obtain ⟨rest, rfl⟩ := hlongest.begins
  obtain ⟨n, hread⟩ := exists_readLongest?_append hlongest.isKind
  have hdrop := drop_numeralEnd? (numeral ++ rest)
  rw [hread rest hlongest, Option.map_some, Option.map_eq_some_iff] at hdrop
  obtain ⟨stop, hstop, hrest⟩ := hdrop
  -- past the end of the text every place leaves the same, so that the bound is needed
  have hlength : ((numeral ++ rest).drop stop).length = rest.length :=
    congrArg List.length hrest
  have hle := numeralEnd?_le hstop
  rw [List.length_append] at hle
  rw [List.length_drop, List.length_append] at hlength
  rw [hstop]
  exact congrArg some (by omega)

theorem numeralEnd?_eq_none_iff :
    numeralEnd? cs = none ↔ ∀ front, front <+: cs → ¬ IsNumeral front := by
  rw [← readLongest?_eq_none_iff, ← Option.map_eq_none_iff, drop_numeralEnd?,
    Option.map_eq_none_iff]

end Places

/-! ### Bytes of a text -/

section Bytes

variable {cs front rest : List Char} {c : Char}

theorem utf8Size_eq_one_iff_lt : c.utf8Size = 1 ↔ c.toNat < 128 := by
  rw [Char.utf8Size_eq_one_iff, UInt32.le_iff_toNat_le]
  exact Nat.lt_succ_iff.symm

theorem byteChars_cons_of_ascii (hc : c.utf8Size = 1) (cs : List Char) :
    byteChars (c :: cs) = c :: byteChars cs := by
  have hsmall : c.val.toNat < 2 ^ 8 := Nat.lt_trans (utf8Size_eq_one_iff_lt.mp hc) (by decide)
  have hbyte : Char.ofUInt8 c.val.toUInt8 = c := by
    apply Char.ext
    apply UInt32.toNat.inj
    change c.val.toUInt8.toUInt32.toNat = c.val.toNat
    rw [UInt8.toNat_toUInt32, UInt32.toNat_toUInt8, Nat.mod_eq_of_lt hsmall]
  rw [byteChars, List.flatMap_cons, String.utf8EncodeChar_eq_singleton hc, List.map_append,
    List.map_singleton, hbyte]
  rfl

theorem exists_leading_byte (hc : c.utf8Size ≠ 1) :
    ∃ n more, String.utf8EncodeChar c = UInt8.ofNat n :: more ∧ 128 ≤ n ∧ n < 256 := by
  have hlong : ¬ c.val.toNat ≤ 127 := fun hle =>
    hc (utf8Size_eq_one_iff_lt.mpr (Nat.lt_succ_of_le hle))
  rw [String.utf8EncodeChar, if_neg hlong]
  split
  · exact ⟨_, _, rfl, by omega, by omega⟩
  split
  · exact ⟨_, _, rfl, by omega, by omega⟩
  · exact ⟨_, _, rfl, by omega, by omega⟩

theorem exists_byteChars_cons (hc : c.utf8Size ≠ 1) (cs : List Char) :
    ∃ b more, byteChars (c :: cs) = b :: more ∧ b.utf8Size ≠ 1 := by
  obtain ⟨n, more, hbytes, hleast, hgreatest⟩ := exists_leading_byte hc
  refine ⟨Char.ofUInt8 (UInt8.ofNat n), more.map Char.ofUInt8 ++ byteChars cs, ?_, ?_⟩
  · rw [byteChars, List.flatMap_cons, hbytes, List.map_append]
    rfl
  · have hvalue : (Char.ofUInt8 (UInt8.ofNat n)).toNat = n := by
      change (UInt8.ofNat n).toUInt32.toNat = n
      rw [UInt8.toNat_toUInt32, UInt8.toNat_ofNat', Nat.mod_eq_of_lt hgreatest]
    rw [ne_eq, utf8Size_eq_one_iff_lt, hvalue]
    omega

theorem begins_byteChars_iff (hfront : ∀ c ∈ front, c.utf8Size = 1) :
    front <+: byteChars cs ↔ front <+: cs := by
  induction front generalizing cs with
  | nil => exact iff_of_true List.nil_prefix List.nil_prefix
  | cons d front ih =>
      rw [List.forall_mem_cons] at hfront
      cases cs with
      | nil => rfl
      | cons c rest =>
          by_cases hc : c.utf8Size = 1
          · rw [byteChars_cons_of_ascii hc, List.cons_prefix_cons, List.cons_prefix_cons,
              ih hfront.2]
          · obtain ⟨b, more, hbytes, hb⟩ := exists_byteChars_cons hc rest
            rw [hbytes, List.cons_prefix_cons, List.cons_prefix_cons]
            refine iff_of_false ?_ ?_
            · rintro ⟨rfl, -⟩
              exact hb hfront.1
            · rintro ⟨rfl, -⟩
              exact hc hfront.1

theorem splitAtByte?_append (hfront : ∀ c ∈ front, c.utf8Size = 1) (rest : List Char) :
    splitAtByte? (front ++ rest) front.length = some (front, rest) := by
  induction front with
  | nil => rw [List.nil_append, List.length_nil, splitAtByte?]
  | cons c front ih =>
      rw [List.forall_mem_cons] at hfront
      rw [List.cons_append, List.length_cons, splitAtByte?, hfront.1, if_pos (Nat.le_add_left 1 _),
        Nat.add_sub_cancel, ih hfront.2]
      rfl

theorem head?_byteChars_iff (hc : c.utf8Size = 1) :
    (byteChars cs).head? = some c ↔ cs.head? = some c := by
  have hbegins : ∀ text : List Char, [c] <+: text ↔ text.head? = some c := by
    intro text
    cases text with
    | nil => simp
    | cons d rest => simp [List.cons_prefix_cons, eq_comm]
  rw [← hbegins, ← hbegins, begins_byteChars_iff (List.forall_mem_singleton.mpr hc)]

theorem utf8Size_eq_one_of_isDigit (hdigit : c.isDigit = true) : c.utf8Size = 1 := by
  have hbounds := toNat_of_isDigit hdigit
  rw [utf8Size_eq_one_iff_lt]
  omega

theorem utf8Size_eq_one_of_isSign {sign : List Char} (hsign : IsSign sign) :
    ∀ c ∈ sign, c.utf8Size = 1 := by
  rcases hsign with rfl | rfl | rfl
  · exact nofun
  · exact List.forall_mem_singleton.mpr (by decide)
  · exact List.forall_mem_singleton.mpr (by decide)

theorem utf8Size_eq_one_of_isNumeral {numeral : List Char} (hnumeral : IsNumeral numeral) :
    ∀ c ∈ numeral, c.utf8Size = 1 := by
  obtain ⟨sign, mantissa, exponent, rfl, hsign, hmantissa, hexponent⟩ := hnumeral
  rw [List.forall_mem_append, List.forall_mem_append]
  refine ⟨utf8Size_eq_one_of_isSign hsign, fun c hmem => ?_, ?_⟩
  · rcases hmantissa.isDigit_or_eq c hmem with hdigit | rfl
    · exact utf8Size_eq_one_of_isDigit hdigit
    · decide
  · cases hexponent with
    | absent => exact nofun
    | present hmark hsign hne hdigits =>
        rw [List.forall_mem_cons, List.forall_mem_append]
        refine ⟨?_, utf8Size_eq_one_of_isSign hsign,
          fun c hmem => utf8Size_eq_one_of_isDigit (hdigits c hmem)⟩
        rcases hmark with rfl | rfl <;> decide

theorem longest_byteChars {numeral : List Char} (hlongest : Longest IsNumeral cs numeral) :
    Longest IsNumeral (byteChars cs) numeral where
  isKind := hlongest.isKind
  begins := (begins_byteChars_iff (utf8Size_eq_one_of_isNumeral hlongest.isKind)).mpr hlongest.begins
  longest other hother hbegins := hlongest.longest other hother
    ((begins_byteChars_iff (utf8Size_eq_one_of_isNumeral hother)).mp hbegins)

theorem signEnd_byteChars (cs : List Char) : signEnd (byteChars cs) 0 = signEnd cs 0 := by
  have hplus : '+'.utf8Size = 1 := by decide
  have hminus : '-'.utf8Size = 1 := by decide
  simp only [signEnd, ← List.head?_eq_getElem?, head?_byteChars_iff hplus,
    head?_byteChars_iff hminus]

theorem splitAtByte?_signEnd (cs : List Char) :
    ∃ sign, splitAtByte? cs (signEnd (byteChars cs) 0) = some (sign, (readSign cs).2) := by
  obtain ⟨sign, unsigned, negative, rfl, hsigned⟩ := exists_sign_append cs
  have hascii : ∀ c ∈ sign, c.utf8Size = 1 := utf8Size_eq_one_of_isSign hsigned.isSign
  have hlength : signEnd (sign ++ unsigned) 0 = sign.length := by
    rw [signEnd, ← List.head?_eq_getElem?]
    cases hsigned with
    | minus => exact if_pos (Or.inr rfl)
    | plus => exact if_pos (Or.inl rfl)
    | none hminus hplus => exact if_neg (not_or.mpr ⟨hplus, hminus⟩)
  refine ⟨sign, ?_⟩
  rw [signEnd_byteChars, hlength, hsigned.readSign_append]
  exact splitAtByte?_append hascii unsigned

theorem readSign_eq_true_iff : (readSign cs).1 = true ↔ cs.head? = some '-' := by
  obtain ⟨sign, unsigned, negative, rfl, hsigned⟩ := exists_sign_append cs
  rw [hsigned.readSign_append]
  cases hsigned with
  | minus => exact iff_of_true rfl rfl
  | plus => exact iff_of_false nofun (by simp)
  | none hminus hplus => exact iff_of_false nofun hminus

theorem head?_byteChars_eq_minus (cs : List Char) :
    ((byteChars cs).head? == some '-') = (readSign cs).1 := by
  have hminus : '-'.utf8Size = 1 := by decide
  rw [Bool.eq_iff_iff, beq_iff_eq, head?_byteChars_iff hminus, readSign_eq_true_iff]

end Bytes

/-! ### The number -/

theorem numeralEnd?_byteChars_of_longest {cs numeral : List Char}
    (hlongest : Longest IsNumeral cs numeral) :
    numeralEnd? (byteChars cs) = some numeral.length ∧
      ∃ rest, splitAtByte? cs numeral.length = some (numeral, rest) := by
  refine ⟨numeralEnd?_of_longest (longest_byteChars hlongest), ?_⟩
  obtain ⟨rest, rfl⟩ := hlongest.begins
  exact ⟨rest, splitAtByte?_append (utf8Size_eq_one_of_isNumeral hlongest.isKind) rest⟩

theorem numeralEnd?_byteChars_eq_none {cs : List Char}
    (hnone : ∀ front, front <+: cs → ¬ IsNumeral front) : numeralEnd? (byteChars cs) = none := by
  rw [numeralEnd?_eq_none_iff]
  intro front hbegins hfront
  exact hnone front ((begins_byteChars_iff (utf8Size_eq_one_of_isNumeral hfront)).mp hbegins) hfront

theorem exists_longest_or_none (cs : List Char) :
    (∃ numeral, Longest IsNumeral cs numeral) ∨ ∀ front, front <+: cs → ¬ IsNumeral front := by
  by_cases hsome : ∃ front, front <+: cs ∧ IsNumeral front
  · obtain ⟨front, hbegins, hfront⟩ := hsome
    exact Or.inl (exists_longest hfront hbegins)
  · exact Or.inr fun front hbegins hfront => hsome ⟨front, hbegins, hfront⟩

theorem numberInBytes?_eq (cs : List Char) :
    numberInBytes? cs = some (readLeadingNumber? cs) := by
  rw [numberInBytes?, readLeadingNumber?]
  generalize trimLeft cs = text
  obtain ⟨sign, hsign⟩ := splitAtByte?_signEnd text
  simp only [hsign, head?_byteChars_eq_minus, Option.bind_eq_bind, Option.bind_some]
  split
  · rfl
  rcases exists_longest_or_none text with ⟨numeral, hlongest⟩ | hnone
  · obtain ⟨hend, rest, hcut⟩ := numeralEnd?_byteChars_of_longest hlongest
    obtain ⟨number, hnumber, hread⟩ := readNumber?_of_longest hlongest
    simp only [hend, hcut, Option.bind_some, hnumber]
    exact congrArg some hread.symm
  · simp only [numeralEnd?_byteChars_eq_none hnone, readLongest?_eq_none_iff.mpr hnone]
    rfl

/-- What `Infinity` begins, perhaps behind a sign. -/
def BeginsInfinite (text : List Char) : Prop :=
  ∃ sign, IsSign sign ∧ sign ++ "Infinity".toList <+: text

theorem beginsInfinite_iff {text : List Char} :
    BeginsInfinite text ↔ "Infinity".toList.isPrefixOf (readSign text).2 = true := by
  rw [List.isPrefixOf_iff_prefix]
  constructor
  · rintro ⟨sign, hsign, rest, rfl⟩
    obtain ⟨negative, hsigned⟩ :=
      hsign.exists_signed_append (rfl : "Infinity".toList.head? = some 'I') (by decide) (by decide)
    rw [List.append_assoc, (hsigned rest).readSign_append]
    exact List.prefix_append _ rest
  · intro hbegins
    obtain ⟨sign, hsplit, hsigned⟩ := exists_signed text
    refine ⟨sign, hsigned.isSign, ?_⟩
    rw [hsplit]
    exact (List.prefix_append_right_inj sign).mpr hbegins

section Reading

variable {input : Value} (source : Value) (args : List Arg)

theorem toFloat_of_beginsInfinite (hinfinite : BeginsInfinite (trimLeft input.text.toList)) :
    toFloat input source args =
      .error (.invalidInput (if (trimLeft input.text.toList).head? = some '-'
        then "-inf is not a finite number" else "inf is not a finite number")) := by
  have hread : readLeadingNumber? input.text.toList =
      some (.infinite (readSign (trimLeft input.text.toList)).1) :=
    if_pos (beginsInfinite_iff.mp hinfinite)
  rw [toFloat]
  simp only [hread, ← readSign_eq_true_iff]
  cases (readSign (trimLeft input.text.toList)).1 <;> rfl

theorem toFloat_of_longest {numeral : List Char}
    (hfinite : ¬ BeginsInfinite (trimLeft input.text.toList))
    (hlongest : Longest IsNumeral (trimLeft input.text.toList) numeral) :
    ∃ number, readNumber? numeral = some number ∧
      toFloat input source args = numberOf number := by
  obtain ⟨number, hnumber, hread⟩ := readNumber?_of_longest hlongest
  refine ⟨number, hnumber, ?_⟩
  rw [beginsInfinite_iff] at hfinite
  have hleading : readLeadingNumber? input.text.toList = some number :=
    (if_neg hfinite).trans hread
  rw [toFloat]
  simp only [hleading]

theorem toFloat_of_numeral {front : List Char}
    (hfinite : ¬ BeginsInfinite (trimLeft input.text.toList))
    (hbegins : front <+: trimLeft input.text.toList) (hfront : IsNumeral front) :
    ∃ numeral rest number, Longest IsNumeral (trimLeft input.text.toList) numeral ∧
      numeralEnd? (byteChars (trimLeft input.text.toList)) = some numeral.length ∧
      splitAtByte? (trimLeft input.text.toList) numeral.length = some (numeral, rest) ∧
      readNumber? numeral = some number ∧ toFloat input source args = numberOf number := by
  obtain ⟨numeral, hlongest⟩ := exists_longest hfront hbegins
  obtain ⟨hend, rest, hcut⟩ := numeralEnd?_byteChars_of_longest hlongest
  obtain ⟨number, hnumber, hresult⟩ := toFloat_of_longest source args hfinite hlongest
  exact ⟨numeral, rest, number, hlongest, hend, hcut, hnumber, hresult⟩

theorem toFloat_of_no_numeral (hfinite : ¬ BeginsInfinite (trimLeft input.text.toList))
    (hnone : ∀ front, front <+: trimLeft input.text.toList → ¬ IsNumeral front) :
    toFloat input source args =
      .error (.invalidInput s!"Cannot parse '{input.text}' as number") := by
  rw [beginsInfinite_iff] at hfinite
  have hleading : readLeadingNumber? input.text.toList = none := by
    refine (if_neg hfinite).trans ?_
    rw [readLongest?_eq_none_iff.mpr hnone, Option.map_none]
  rw [toFloat]
  simp only [hleading]

/-- What is no finite number is refused in other words than what is no number. -/
theorem numberOf_ne_unparsed (number : Binary64) (text : String) :
    numberOf number ≠ .error (.invalidInput s!"Cannot parse '{text}' as number") := by
  intro hsame
  cases number with
  | finite d =>
      rw [numberOf] at hsame
      split at hsame <;> cases hsame
  | infinite negative =>
      have hwords := FilterError.invalidInput.inj (Except.error.inj hsame)
      have hfirst := congrArg (fun words => words.toList.head?) hwords
      cases negative <;> simp [Binary64.special, toString] at hfirst
  | nan =>
      have hwords := FilterError.invalidInput.inj (Except.error.inj hsame)
      have hfirst := congrArg (fun words => words.toList.head?) hwords
      simp [Binary64.special, toString] at hfirst

end Reading

/-- **The longest numeral at the front of a text is read.** Behind the blanks, a text that begins
with `Infinity` names no finite number. On any other text the numeral that is handed on is the longest
one at the front, it is read by itself without fail, and without one the text is refused. No cut that
is made among the bytes is inside a character. -/
theorem toFloat_reads_longest_numeral (input source : Value) (args : List Arg) :
    let text := trimLeft input.text.toList
    let unparsed := FilterError.invalidInput s!"Cannot parse '{input.text}' as number"
    numberInBytes? input.text.toList = some (readLeadingNumber? input.text.toList) ∧
      (BeginsInfinite text → toFloat input source args = .error (.invalidInput
        (if text.head? = some '-' then "-inf is not a finite number"
          else "inf is not a finite number"))) ∧
      (¬ BeginsInfinite text →
        ((∃ front, front <+: text ∧ IsNumeral front) →
          ∃ numeral rest number, Longest IsNumeral text numeral ∧
            numeralEnd? (byteChars text) = some numeral.length ∧
            splitAtByte? text numeral.length = some (numeral, rest) ∧
            readNumber? numeral = some number ∧ toFloat input source args = numberOf number) ∧
        (toFloat input source args = .error unparsed ↔
          ¬ ∃ front, front <+: text ∧ IsNumeral front)) := by
  intro text unparsed
  refine ⟨numberInBytes?_eq input.text.toList, toFloat_of_beginsInfinite source args,
    fun hfinite => ⟨?_, fun hunparsed => ?_, fun hnone => ?_⟩⟩
  · rintro ⟨front, hbegins, hfront⟩
    exact toFloat_of_numeral source args hfinite hbegins hfront
  · rintro ⟨front, hbegins, hfront⟩
    obtain ⟨_, _, number, -, -, -, -, hresult⟩ :=
      toFloat_of_numeral source args hfinite hbegins hfront
    exact numberOf_ne_unparsed number input.text (hresult.symm.trans hunparsed)
  · exact toFloat_of_no_numeral source args hfinite fun front hbegins hfront =>
      hnone ⟨front, hbegins, hfront⟩

/-- A point that is kept and an exponent that is not, between a wide blank and a wide character. -/
theorem toFloat_reads_longest_numeral_incomplete :
    let input : Value := .string "\u3000+12.e-日"
    let text := "+12.e-日".toList
    let twelve : Binary64 := .finite ⟨false, 12 <<< 49, -49, by decide⟩
    trimLeft input.text.toList = text ∧ ¬ BeginsInfinite text ∧
      Longest IsNumeral text "+12.".toList ∧
      numeralEnd? (byteChars text) = some 4 ∧ readNumber? "+12.".toList = some twelve ∧
      toFloat input .null [] = .ok (.integer 12) := by
  intro input text twelve
  have htext : trimLeft input.text.toList = text := by decide
  have hfinite : ¬ BeginsInfinite text := by
    rw [beginsInfinite_iff]
    decide
  have hlongest : Longest IsNumeral text "+12.".toList := by
    have hread : ∃ n, readLongest? ("+12.".toList ++ "e-日".toList) = some (n, "e-日".toList) :=
      ⟨_, rfl⟩
    obtain ⟨n, hread⟩ := hread
    exact longest_of_readLongest? hread
  obtain ⟨-, -, hnumeral⟩ := toFloat_reads_longest_numeral input .null []
  rw [htext] at hnumeral
  obtain ⟨numeral, rest, number, hother, hend, -, hnumber, hresult⟩ :=
    (hnumeral hfinite).1 ⟨_, hlongest.begins, hlongest.isKind⟩
  obtain rfl := hother.unique hlongest
  have htwelve : readNumber? "+12.".toList = some twelve := by decide +kernel
  obtain rfl : number = twelve := Option.some.inj (hnumber.symm.trans htwelve)
  exact ⟨htext, hfinite, hlongest, hend, htwelve, hresult⟩

end Reshape.Filter
