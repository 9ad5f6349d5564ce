import Mathlib.Data.Nat.Digits.Defs
import Reshape.Filter.Convert
import Reshape.Proofs.Text.Numeral

/-!
# Whole numbers at the front of a text

A text is taken apart into blanks, a sign, the mark of hexadecimal digits, and the longest run of
digits; every part takes all that it can, so that the parts are determined. The number read is the
value of the run with its sign, as long as the value itself, without the sign, is a signed word.
The least signed word is therefore never read, though it is one.
-/

namespace Reshape.Filter

open Text Numeral

/-- The mark before hexadecimal digits; one that is there is not left to the text. -/
inductive Marked (radix : Nat) (rest : List Char) : List Char → Prop
  | hex {mark : Char} (hradix : radix = 16) (hmark : mark = 'x' ∨ mark = 'X') :
      Marked radix rest ['0', mark]
  | none (hrest : ∀ mark more, rest = '0' :: mark :: more → radix = 16 →
      ¬ (mark = 'x' ∨ mark = 'X')) : Marked radix rest []

/-- The longest run of digits of a radix at the front of a text. -/
def DigitRun (radix : Nat) (text : List Char) (digits : List Nat) : Prop :=
  ∃ run rest, text = run ++ rest ∧ run.mapM (digitValue? radix) = some digits ∧
    ∀ c, rest.head? = some c → digitValue? radix c = none

/-- The sign and the digits of the whole number at the front of a text. -/
def LeadsWith (radix : Nat) (text : List Char) (negative : Bool) (digits : List Nat) : Prop :=
  ∃ blanks sign mark rest, text = blanks ++ (sign ++ (mark ++ rest)) ∧
    (∀ c ∈ blanks, isBlank c = true) ∧
    (∀ c, (sign ++ (mark ++ rest)).head? = some c → isBlank c = false) ∧
    Signed (mark ++ rest) sign negative ∧ Marked radix rest mark ∧ DigitRun radix rest digits

/-- The number with a sign and digits, the leading digit first. -/
def signedValue (radix : Nat) (negative : Bool) (digits : List Nat) : Int :=
  let magnitude : Nat := Nat.ofDigits radix digits.reverse
  if negative then -(magnitude : Int) else magnitude

/-! ### The parts are those that the reader takes -/

section Parts

variable {radix : Nat} {text rest sign mark : List Char} {negative : Bool} {digits : List Nat}

theorem Marked.dropHexMark_append (hmark : Marked radix rest mark) :
    dropHexMark radix (mark ++ rest) = rest := by
  cases hmark with
  | hex hradix hmark => exact if_pos ⟨hradix, hmark⟩
  | none hrest =>
      rw [List.nil_append]
      unfold dropHexMark
      split
      · next mark more => exact if_neg fun hhex => hrest mark more rfl hhex.1 hhex.2
      · rfl

theorem exists_marked (radix : Nat) (text : List Char) :
    ∃ mark, text = mark ++ dropHexMark radix text ∧
      Marked radix (dropHexMark radix text) mark := by
  unfold dropHexMark
  split
  · next mark rest =>
      by_cases hhex : radix = 16 ∧ (mark = 'x' ∨ mark = 'X')
      · rw [if_pos hhex]
        exact ⟨['0', mark], rfl, .hex hhex.1 hhex.2⟩
      · rw [if_neg hhex]
        refine ⟨[], rfl, .none fun other more hmore hradix hother => hhex ⟨hradix, ?_⟩⟩
        obtain ⟨-, hmore⟩ := List.cons.inj hmore
        rwa [(List.cons.inj hmore).1]
  · next hshape => exact ⟨[], rfl, .none fun mark more hmore => absurd hmore (hshape mark more)⟩

theorem digitRun_iff : DigitRun radix text digits ↔ leadingDigits radix text = digits := by
  induction text generalizing digits with
  | nil =>
      rw [leadingDigits]
      constructor
      · rintro ⟨run, rest, hsplit, hrun, -⟩
        obtain ⟨rfl, -⟩ := List.append_eq_nil_iff.mp hsplit.symm
        exact Option.some.inj hrun
      · rintro rfl
        exact ⟨[], [], rfl, rfl, nofun⟩
  | cons c more ih =>
      rw [leadingDigits]
      cases hdigit : digitValue? radix c with
      | none =>
          constructor
          · rintro ⟨run, rest, hsplit, hrun, -⟩
            cases run with
            | nil => exact Option.some.inj hrun
            | cons d run =>
                obtain ⟨rfl, -⟩ := List.cons.inj hsplit
                simp [hdigit] at hrun
          · rintro rfl
            exact ⟨[], c :: more, rfl, rfl, fun d hhead => Option.some.inj hhead ▸ hdigit⟩
      | some digit =>
          constructor
          · rintro ⟨run, rest, hsplit, hrun, hlongest⟩
            cases run with
            | nil =>
                obtain rfl : c :: more = rest := hsplit
                simp [hlongest c rfl] at hdigit
            | cons d run =>
                obtain ⟨rfl, rfl⟩ := List.cons.inj hsplit
                obtain ⟨others, hothers, rfl⟩ : ∃ others,
                    run.mapM (digitValue? radix) = some others ∧ digit :: others = digits := by
                  simpa [List.mapM_cons, hdigit, Option.bind_eq_some_iff] using hrun
                exact congrArg (digit :: ·) (ih.mp ⟨run, rest, rfl, hothers, hlongest⟩)
          · rintro rfl
            obtain ⟨run, rest, rfl, hrun, hlongest⟩ := ih.mpr rfl
            exact ⟨c :: run, rest, rfl, by simp [List.mapM_cons, hdigit, hrun], hlongest⟩

/-- A text leads with one sign and one run of digits, those that the reader finds. -/
theorem leadsWith_iff :
    LeadsWith radix text negative digits ↔
      (readSign (trimLeft text)).1 = negative ∧
        leadingDigits radix (dropHexMark radix (readSign (trimLeft text)).2) = digits := by
  constructor
  · rintro ⟨blanks, sign, mark, rest, rfl, hblanks, hhead, hsign, hmark, hrun⟩
    rw [trimLeft_append hblanks hhead, hsign.readSign_append, hmark.dropHexMark_append]
    exact ⟨rfl, digitRun_iff.mp hrun⟩
  · rintro ⟨rfl, hdigits⟩
    obtain ⟨blanks, hblanks, hall⟩ := exists_blanks_trimLeft text
    obtain ⟨sign, hsign, hsigned⟩ := exists_signed (trimLeft text)
    obtain ⟨mark, hmark, hmarked⟩ := exists_marked radix (readSign (trimLeft text)).2
    refine ⟨blanks, sign, mark, _, ?_, hall, ?_, ?_, hmarked, digitRun_iff.mpr hdigits⟩
    · rw [← hmark, ← hsign, ← hblanks]
    · rw [← hmark, ← hsign]
      exact fun c => isBlank_of_head?_trimLeft
    · rwa [← hmark]

end Parts

/-! ### The number read -/

theorem ofDigits_eq (radix : Nat) (digits : List Nat) :
    ofDigits radix digits = Nat.ofDigits radix digits.reverse := by
  rw [Nat.ofDigits_eq_foldr, List.foldr_reverse, ofDigits]
  congr 1
  funext total digit
  rw [Nat.mul_comm, Nat.add_comm]
  rfl

section Accumulation

variable {radix : Nat}

theorem fitsSigned_of_le {width m n : Nat} (hle : m ≤ n) (hfits : fitsSigned width n = true) :
    fitsSigned width m = true := by
  rw [fitsSigned_eq_true_iff] at hfits ⊢
  omega

/-- The product is no greater than the sum, so that the sum alone decides. -/
theorem addDigit?_natCast (radix total digit : Nat) :
    addDigit? radix total digit =
      (some ((total * radix + digit : Nat) : Int)).filter (fitsSigned 64) := by
  have hcast : ((total * radix : Nat) : Int) = total * radix := Int.natCast_mul total radix
  rw [addDigit?, ← hcast]
  by_cases hproduct : fitsSigned 64 (total * radix : Nat) = true
  · rw [Option.filter_some, if_pos hproduct, Option.bind_eq_bind, Option.bind_some, Int.natCast_add]
  · have hsum : ¬ fitsSigned 64 (total * radix + digit : Nat) = true :=
      mt (fitsSigned_of_le (Nat.le_add_right _ _)) hproduct
    rw [Option.filter_some, if_neg hproduct, Option.filter_some, if_neg hsum]
    rfl

section Push

variable {total : Option Int} {start digit : Nat}

theorem pushDigit_of_fits (hstart : total.getD 0 = start) (text : String)
    (hfits : fitsSigned 64 (start * radix + digit : Nat) = true) :
    pushDigit radix text total digit = pure (some ((start * radix + digit : Nat) : Int)) := by
  rw [pushDigit, hstart, addDigit?_natCast, Option.filter_some, if_pos hfits]
  rfl

theorem pushDigit_of_not_fits (hstart : total.getD 0 = start) (text : String)
    (hfits : ¬ fitsSigned 64 (start * radix + digit : Nat) = true) :
    pushDigit radix text total digit =
      .error (.invalidInput s!"'{text}' overflows an integer") := by
  rw [pushDigit, hstart, addDigit?_natCast, Option.filter_some, if_neg hfits]

end Push

theorem le_foldl_digits (hradix : 0 < radix) (total : Nat) (digits : List Nat) :
    total ≤ digits.foldl (fun total digit => total * radix + digit) total := by
  induction digits generalizing total with
  | nil => exact le_rfl
  | cons digit rest ih =>
      calc
        total ≤ total * radix := Nat.le_mul_of_pos_right total hradix
        _ ≤ total * radix + digit := Nat.le_add_right _ _
        _ ≤ _ := ih (total * radix + digit)

/-- Totals only grow, so that one of them overflows exactly when the last one does. -/
theorem foldlM_pushDigit (hradix : 0 < radix) {total : Option Int} {start : Nat}
    (hstart : total.getD 0 = start) (text : String) (digit : Nat) (rest : List Nat) :
    (digit :: rest).foldlM (pushDigit radix text) total =
      let value := (digit :: rest).foldl (fun total digit => total * radix + digit) start
      if fitsSigned 64 value then .ok (some (value : Int))
      else .error (.invalidInput s!"'{text}' overflows an integer") := by
  induction rest generalizing total start digit with
  | nil =>
      dsimp only [List.foldl_cons, List.foldl_nil]
      rw [List.foldlM_cons]
      split_ifs with hfits
      · rw [pushDigit_of_fits hstart text hfits, pure_bind]
        rfl
      · rw [pushDigit_of_not_fits hstart text hfits]
        rfl
  | cons next rest ih =>
      rw [List.foldlM_cons, List.foldl_cons]
      by_cases hfits : fitsSigned 64 (start * radix + digit : Nat) = true
      · rw [pushDigit_of_fits hstart text hfits, pure_bind]
        exact ih Option.getD_some next
      · dsimp only
        rw [pushDigit_of_not_fits hstart text hfits,
          if_neg (mt (fitsSigned_of_le (le_foldl_digits hradix _ _)) hfits)]
        rfl

/-- The checked totals of the digits come to their value, or to nothing when that is no word. -/
theorem readLeadingInt_eq (hradix : 0 < radix) (text : String) :
    readLeadingInt radix text =
      let sign := readSign (trimLeft text.toList)
      let digits := leadingDigits radix (dropHexMark radix sign.2)
      let magnitude : Int := ofDigits radix digits
      if digits = [] then .error (.invalidInput s!"Cannot parse '{text}' as integer")
      else if fitsSigned 64 magnitude then .ok (if sign.1 then -magnitude else magnitude)
      else .error (.invalidInput s!"'{text}' overflows an integer") := by
  unfold readLeadingInt
  dsimp only
  generalize leadingDigits radix (dropHexMark radix (readSign (trimLeft text.toList)).2) = digits
  cases digits with
  | nil => rfl
  | cons digit rest =>
      have hstart : (none : Option Int).getD 0 = (0 : Nat) := rfl
      rw [foldlM_pushDigit hradix hstart, ← ofDigits, if_neg (List.cons_ne_nil digit rest)]
      dsimp only
      split_ifs <;> rfl

end Accumulation

/-- The value of digits that may be read: signed words, but not the least. -/
def IsReadable (digits : List Nat) (n : Int) : Prop :=
  digits ≠ [] ∧ -2 ^ 63 < n ∧ n < 2 ^ 63

section Reading

variable {radix : Nat} {text : String} {negative : Bool} {digits : List Nat}

/-- Only the magnitude is held against the range, which is the same for both signs. -/
theorem isReadable_iff :
    IsReadable digits (signedValue radix negative digits) ↔
      digits ≠ [] ∧ fitsSigned 64 (ofDigits radix digits : Nat) = true := by
  rw [IsReadable, fitsSigned_eq_true_iff, ofDigits_eq, signedValue]
  generalize Nat.ofDigits radix digits.reverse = magnitude
  refine and_congr_right fun _ => ?_
  cases negative <;> simp only [if_true, if_false, Bool.false_eq_true] <;> omega

theorem readLeadingInt_of_isReadable (hradix : 0 < radix)
    (hleads : LeadsWith radix text.toList negative digits)
    (hreadable : IsReadable digits (signedValue radix negative digits)) :
    readLeadingInt radix text = .ok (signedValue radix negative digits) := by
  obtain ⟨hsign, hdigits⟩ := leadsWith_iff.mp hleads
  obtain ⟨hne, hfits⟩ := isReadable_iff.mp hreadable
  simp only [readLeadingInt_eq hradix, hsign, hdigits]
  rw [if_neg hne, if_pos hfits, ofDigits_eq]
  rfl

theorem readLeadingInt_of_not_isReadable (hradix : 0 < radix)
    (hleads : LeadsWith radix text.toList negative digits)
    (hreadable : ¬ IsReadable digits (signedValue radix negative digits)) :
    ∃ message, readLeadingInt radix text = .error (.invalidInput message) := by
  obtain ⟨-, hdigits⟩ := leadsWith_iff.mp hleads
  simp only [readLeadingInt_eq hradix, hdigits]
  split
  · exact ⟨_, rfl⟩
  · next hne =>
      rw [isReadable_iff, not_and] at hreadable
      rw [if_neg (hreadable hne)]
      exact ⟨_, rfl⟩

end Reading

/-- The text of an integer leads with its own sign and digits. -/
theorem leadsWith_integer_text (n : Int) :
    ∃ negative digits, LeadsWith 10 (Value.integer n).text.toList negative digits ∧ digits ≠ [] ∧
      signedValue 10 negative digits = n := by
  obtain ⟨digits, hdigits, hne, hvalue⟩ := mapM_digitValue?_toDigits n.natAbs
  have htext : (Value.integer n).text.toList =
      (if n < 0 then ['-'] else []) ++ Nat.toDigits 10 n.natAbs := toList_toString_int n
  have hfirst : ∀ c, (Nat.toDigits 10 n.natAbs).head? = some c → c.isDigit = true :=
    fun c hhead => isDigit_toDigits _ c (List.mem_of_head? hhead)
  have hrun : DigitRun 10 (Nat.toDigits 10 n.natAbs) digits :=
    ⟨Nat.toDigits 10 n.natAbs, [], (List.append_nil _).symm, hdigits, nofun⟩
  have hmark : Marked 10 (Nat.toDigits 10 n.natAbs) [] :=
    .none fun _ _ _ hradix => absurd hradix (by decide)
  rw [htext]
  by_cases hneg : n < 0
  · have hblank : ∀ c, ('-' :: Nat.toDigits 10 n.natAbs).head? = some c → isBlank c = false := by
      intro c hhead
      rw [← Option.some.inj hhead]
      decide
    refine ⟨true, digits, ?_, hne, ?_⟩
    · rw [if_pos hneg]
      exact ⟨[], ['-'], [], _, rfl, nofun, hblank, .minus, hmark, hrun⟩
    · rw [signedValue, ← ofDigits_eq, hvalue, if_pos rfl]
      omega
  · have hblank : ∀ c, (Nat.toDigits 10 n.natAbs).head? = some c → isBlank c = false :=
      fun c hhead => isBlank_eq_false_of_isDigit (hfirst c hhead)
    have hsign : Signed (Nat.toDigits 10 n.natAbs) [] false :=
      .none (fun hhead => absurd (hfirst _ hhead) (by decide))
        fun hhead => absurd (hfirst _ hhead) (by decide)
    refine ⟨false, digits, ?_, hne, ?_⟩
    · rw [if_neg hneg]
      exact ⟨[], [], [], _, rfl, nofun, hblank, hsign, hmark, hrun⟩
    · rw [signedValue, ← ofDigits_eq, hvalue, if_neg (by decide)]
      omega

/-- The arguments ask for a radix: by a number or its text, or for ten by zero or by nothing. -/
def AsksRadix (args : List Arg) (radix : Nat) : Prop :=
  word? args 0 = .ok (some radix) ∨
    radix = 10 ∧ (word? args 0 = .ok none ∨ word? args 0 = .ok (some 0))

theorem toInt_of_asksRadix {radix : Nat} (hlow : 2 ≤ radix) (hhigh : radix ≤ 36) {args : List Arg}
    (hargs : AsksRadix args radix) (input source : Value) :
    toInt input source args = (readLeadingInt radix input.text).map .integer := by
  have hradix : radixOf (some radix) = .ok radix := by
    have hne : (radix : Int) ≠ 0 := by omega
    have hrange : (2 : Int) ≤ radix ∧ (radix : Int) ≤ 36 := by omega
    rw [radixOf, if_neg hne, if_pos hrange, Int.toNat_natCast]
  rcases hargs with hargs | ⟨rfl, hargs | hargs⟩
  · simp only [toInt, hargs, bind, Except.bind, hradix]
  · simp only [toInt, hargs, bind, Except.bind, radixOf]
  · simp only [toInt, hargs, bind, Except.bind, radixOf, if_pos]

/-- **Whole numbers are read exactly.** The number at the front of a text is given back whenever
it has digits and is a signed word other than the least; in every other case the text is refused as
input. Integers in that range are given back as they are. -/
theorem toInt_reads_leading_int {radix : Nat} (hlow : 2 ≤ radix) (hhigh : radix ≤ 36)
    {args : List Arg} (hargs : AsksRadix args radix) (input source : Value) :
    (∃ negative digits, LeadsWith radix input.text.toList negative digits) ∧
    (∀ negative digits, LeadsWith radix input.text.toList negative digits →
      (IsReadable digits (signedValue radix negative digits) →
        toInt input source args = .ok (.integer (signedValue radix negative digits))) ∧
      (¬ IsReadable digits (signedValue radix negative digits) →
        ∃ message, toInt input source args = .error (.invalidInput message))) ∧
    ∀ n : Int, -2 ^ 63 < n → n < 2 ^ 63 → toInt (.integer n) source [] = .ok (.integer n) := by
  have hradix : 0 < radix := Nat.zero_lt_of_lt hlow
  refine ⟨⟨_, _, leadsWith_iff.mpr ⟨rfl, rfl⟩⟩, fun negative digits hleads => ⟨fun hreadable => ?_,
    fun hreadable => ?_⟩, fun n hleast hgreatest => ?_⟩
  · rw [toInt_of_asksRadix hlow hhigh hargs, readLeadingInt_of_isReadable hradix hleads hreadable]
    rfl
  · obtain ⟨message, hread⟩ := readLeadingInt_of_not_isReadable hradix hleads hreadable
    rw [toInt_of_asksRadix hlow hhigh hargs, hread]
    exact ⟨message, rfl⟩
  · obtain ⟨negative, digits, hleads, hne, hvalue⟩ := leadsWith_integer_text n
    have hten : AsksRadix [] 10 := Or.inr ⟨rfl, Or.inl rfl⟩
    have hread := readLeadingInt_of_isReadable (by omega) hleads
      (show IsReadable digits _ from hvalue.symm ▸ ⟨hne, hleast, hgreatest⟩)
    rw [toInt_of_asksRadix (by decide) (by decide) hten, hread, hvalue]
    rfl

/-- A negative hexadecimal number between blanks, asked for by the text of an argument. -/
theorem toInt_reads_leading_int_hex :
    toInt (.string " -0x7FFFffffFFFFffffg") .null [.ofText "16"] = .ok (.integer (1 - 2 ^ 63)) := by
  have hargs : AsksRadix [.ofText "16"] 16 := Or.inl rfl
  have hleads : LeadsWith 16 " -0x7FFFffffFFFFffffg".toList true (7 :: List.replicate 15 15) :=
    leadsWith_iff.mpr (by decide)
  have hvalue : signedValue 16 true (7 :: List.replicate 15 15) = 1 - 2 ^ 63 := by
    decide
  obtain ⟨-, hread, -⟩ := toInt_reads_leading_int (by decide) (by decide) hargs
    (.string " -0x7FFFffffFFFFffffg") .null
  rw [← hvalue]
  exact (hread _ _ hleads).1 ⟨by decide, by decide, by decide⟩

/-- The least signed word is refused, whether it comes as an integer or as the text of one. -/
theorem toInt_refuses_least_word :
    let digits := [9, 2, 2, 3, 3, 7, 2, 0, 3, 6, 8, 5, 4, 7, 7, 5, 8, 0, 8]
    LeadsWith 10 "-9223372036854775808".toList true digits ∧
      signedValue 10 true digits = -2 ^ 63 ∧
      toInt (.string "-9223372036854775808") .null [] =
        .error (.invalidInput "'-9223372036854775808' overflows an integer") ∧
      toInt (.integer (-2 ^ 63)) .null [] =
        .error (.invalidInput "'-9223372036854775808' overflows an integer") := by
  refine ⟨leadsWith_iff.mpr (by decide), by decide, rfl, rfl⟩

end Reshape.Filter
