import Mathlib.Algebra.Group.Int.Defs
import Mathlib.Algebra.Group.Nat.Defs
import Reshape.Text.Digits

/-!
# Decimal digits

Reading decimal digits gives the number that they denote, and digits without superfluous zeros are
exactly the ones with which that number is written.
-/

namespace Reshape.Text

theorem isDigit_eq_true_iff {c : Char} : c.isDigit = true ↔ '0' ≤ c ∧ c ≤ '9' := by
  simp [Char.isDigit, Char.le_def]

theorem toNat_of_isDigit {c : Char} (hdigit : c.isDigit = true) :
    48 ≤ c.toNat ∧ c.toNat ≤ 57 :=
  isDigit_eq_true_iff.mp hdigit

theorem ne_of_isDigit {c other : Char} (hdigit : c.isDigit = true)
    (hother : other.isDigit = false) : c ≠ other := by
  rintro rfl
  exact Bool.noConfusion (hdigit.symm.trans hother)

theorem digit_lt_ten {c : Char} (hdigit : c.isDigit = true) : c.toNat - '0'.toNat < 10 := by
  have hbounds := toNat_of_isDigit hdigit
  change c.toNat - 48 < 10
  omega

/-- Of the digits of all radices, only the decimal ones count below ten. -/
theorem digitValue?_ten (c : Char) :
    digitValue? 10 c = if c.isDigit then some (c.toNat - '0'.toNat) else none := by
  have hletter : ∀ offset : Nat, (some (offset + 10)).filter (· < 10) = none := by
    intro offset
    simp
  by_cases hdigit : c.isDigit = true
  · rw [if_pos hdigit, digitValue?, if_pos (isDigit_eq_true_iff.mp hdigit)]
    simpa using digit_lt_ten hdigit
  · rw [if_neg hdigit, digitValue?, if_neg (mt isDigit_eq_true_iff.mpr hdigit)]
    split
    · exact hletter _
    · split
      · exact hletter _
      · rfl

theorem isDigit_eq (c : Char) : isDigit c = c.isDigit := by
  rw [isDigit, digitValue?_ten]
  cases c.isDigit <;> rfl

theorem mapM_digitValue?_ten_eq_some_iff {cs : List Char} {digits : List Nat} :
    cs.mapM (digitValue? 10) = some digits ↔
      (∀ c ∈ cs, c.isDigit = true) ∧ cs.map (fun c => c.toNat - '0'.toNat) = digits := by
  induction cs generalizing digits with
  | nil => simp
  | cons c rest ih =>
      rw [List.mapM_cons, digitValue?_ten, List.forall_mem_cons, List.map_cons]
      by_cases hdigit : c.isDigit = true
      · rw [if_pos hdigit]
        simp only [Option.bind_eq_bind, Option.bind_some, Option.bind_eq_some_iff, ih]
        constructor
        · rintro ⟨others, ⟨hrest, rfl⟩, hdigits⟩
          exact ⟨⟨hdigit, hrest⟩, Option.some.inj hdigits⟩
        · rintro ⟨⟨-, hrest⟩, rfl⟩
          exact ⟨_, ⟨hrest, rfl⟩, rfl⟩
      · simp [hdigit]

theorem ofDigits_map_toNat (cs : List Char) :
    ofDigits 10 (cs.map fun c => c.toNat - '0'.toNat) = Nat.ofDigitChars 10 cs 0 := by
  rw [ofDigits, List.foldl_map, Nat.ofDigitChars_eq_foldl]
  simp only [Nat.mul_comm]

theorem readDigits?_ten_eq_some_iff {cs : List Char} {n : Nat} :
    readDigits? 10 cs = some n ↔
      cs ≠ [] ∧ (∀ c ∈ cs, c.isDigit = true) ∧ Nat.ofDigitChars 10 cs 0 = n := by
  rw [readDigits?]
  cases cs with
  | nil => simp
  | cons c rest =>
      rw [if_neg (by simp), Option.map_eq_some_iff]
      simp only [mapM_digitValue?_ten_eq_some_iff]
      constructor
      · rintro ⟨digits, ⟨hdigits, rfl⟩, hvalue⟩
        rw [ofDigits_map_toNat] at hvalue
        exact ⟨List.cons_ne_nil c rest, hdigits, hvalue⟩
      · rintro ⟨-, hdigits, hvalue⟩
        rw [← ofDigits_map_toNat] at hvalue
        exact ⟨_, ⟨hdigits, rfl⟩, hvalue⟩

theorem readUnsigned?_ten_eq_some_iff {width : Nat} {cs : List Char} {n : Nat} :
    readUnsigned? width 10 cs = some n ↔
      ∃ sign digits, cs = sign ++ digits ∧ (sign = [] ∨ sign = ['+']) ∧ digits ≠ [] ∧
        (∀ c ∈ digits, c.isDigit = true) ∧ Nat.ofDigitChars 10 digits 0 = n ∧ n < 2 ^ width := by
  have hfits : fitsUnsigned width n = true ↔ n < 2 ^ width := by
    simp [fitsUnsigned, Nat.one_shiftLeft]
  have hread : ∀ digits, (readDigits? 10 digits).filter (fun m : Nat => fitsUnsigned width m) =
      some n ↔ digits ≠ [] ∧ (∀ c ∈ digits, c.isDigit = true) ∧
        Nat.ofDigitChars 10 digits 0 = n ∧ n < 2 ^ width := by
    intro digits
    rw [Option.filter_eq_some_iff, readDigits?_ten_eq_some_iff, hfits]
    simp only [and_assoc]
  unfold readUnsigned?
  split
  · next rest =>
      rw [hread]
      constructor
      · intro hrest
        exact ⟨['+'], rest, rfl, Or.inr rfl, hrest⟩
      · rintro ⟨sign, digits, hsplit, rfl | rfl, hne, hdigits, hvalue⟩
        · obtain rfl : '+' :: rest = digits := hsplit
          exact absurd (hdigits '+' (by simp)) (by decide)
        · obtain rfl : rest = digits := List.tail_eq_of_cons_eq hsplit
          exact ⟨hne, hdigits, hvalue⟩
  · next hplus =>
      rw [hread]
      constructor
      · intro hcs
        exact ⟨[], cs, rfl, Or.inl rfl, hcs⟩
      · rintro ⟨sign, digits, rfl, rfl | rfl, hrest⟩
        · exact hrest
        · exact absurd rfl (hplus digits)

/-! ### Digits without superfluous zeros -/

theorem digitChar_toNat_sub {c : Char} (hdigit : c.isDigit = true) :
    Nat.digitChar (c.toNat - '0'.toNat) = c := by
  have hbounds := toNat_of_isDigit hdigit
  apply Char.toNat_inj.mp
  rw [Nat.toNat_digitChar_of_lt_ten (digit_lt_ten hdigit)]
  change 48 + (c.toNat - 48) = c.toNat
  omega

/-- Digits that follow those of a positive number go on with its decimal form. -/
theorem toDigits_append {n : Nat} (hpos : 0 < n) {cs : List Char}
    (hdigits : ∀ c ∈ cs, c.isDigit = true) :
    Nat.toDigits 10 n ++ cs = Nat.toDigits 10 (Nat.ofDigitChars 10 cs n) := by
  induction cs generalizing n with
  | nil => simp
  | cons c rest ih =>
      rw [List.forall_mem_cons] at hdigits
      obtain ⟨hdigit, hrest⟩ := hdigits
      have hlt := digit_lt_ten hdigit
      have hone : Nat.toDigits 10 n ++ [c] = Nat.toDigits 10 (10 * n + (c.toNat - '0'.toNat)) := by
        rw [← Nat.toDigits_append_toDigits (by decide) hpos hlt, Nat.toDigits_of_lt_base hlt,
          digitChar_toNat_sub hdigit]
      rw [Nat.ofDigitChars_cons, ← ih (by omega) hrest, ← hone, List.append_assoc,
        List.singleton_append]

theorem toDigits_ofDigitChars {c : Char} {cs : List Char} (hzero : c ≠ '0')
    (hdigits : ∀ d ∈ c :: cs, d.isDigit = true) :
    Nat.toDigits 10 (Nat.ofDigitChars 10 (c :: cs) 0) = c :: cs := by
  rw [List.forall_mem_cons] at hdigits
  have hne : c.toNat ≠ 48 := fun heq => hzero (Char.toNat_inj.mp heq)
  -- the first digit counts, so that the others go on with a positive number
  have hpos : 0 < c.toNat - '0'.toNat := by
    have hbounds := toNat_of_isDigit hdigits.1
    change 0 < c.toNat - 48
    omega
  rw [Nat.ofDigitChars_cons, Nat.mul_zero, Nat.zero_add, ← toDigits_append hpos hdigits.2,
    Nat.toDigits_of_lt_base (digit_lt_ten hdigits.1), digitChar_toNat_sub hdigits.1,
    List.singleton_append]

/-- Only zero is written with a zero in front. -/
theorem head?_toDigits_ne {n : Nat} (hpos : 0 < n) : (Nat.toDigits 10 n).head? ≠ some '0' := by
  induction n using Nat.strongRecOn with
  | ind n ih =>
      rcases Nat.lt_or_ge n 10 with hlt | hge
      · rw [Nat.toDigits_of_lt_base hlt, List.head?_cons]
        intro hzero
        have hcode := congrArg Char.toNat (Option.some.inj hzero)
        rw [Nat.toNat_digitChar_of_lt_ten hlt] at hcode
        change 48 + n = 48 at hcode
        omega
      · have hfirst := ih (n / 10) (Nat.div_lt_self (by omega) (by decide)) (by omega)
        obtain ⟨c, rest, hquotient⟩ :=
          List.exists_cons_of_ne_nil (Nat.toDigits_ne_nil : Nat.toDigits 10 (n / 10) ≠ [])
        rw [hquotient] at hfirst
        rw [Nat.toDigits_of_base_le (by decide) hge, hquotient]
        exact hfirst

theorem isDigit_toDigits (n : Nat) : ∀ c ∈ Nat.toDigits 10 n, c.isDigit = true :=
  fun _ => Nat.isDigit_of_mem_toDigits (by decide) (by decide)

theorem exists_toDigits_eq_cons (n : Nat) :
    ∃ c rest, Nat.toDigits 10 n = c :: rest ∧ c.isDigit = true := by
  obtain ⟨c, rest, hrun⟩ :=
    List.exists_cons_of_ne_nil (Nat.toDigits_ne_nil : Nat.toDigits 10 n ≠ [])
  exact ⟨c, rest, hrun, isDigit_toDigits n c (hrun ▸ List.mem_cons_self)⟩

theorem readUnsigned?_toDigits {width n : Nat} (hfits : n < 2 ^ width) :
    readUnsigned? width 10 (Nat.toDigits 10 n) = some n := by
  rw [readUnsigned?_ten_eq_some_iff]
  exact ⟨[], Nat.toDigits 10 n, rfl, Or.inl rfl, Nat.toDigits_ne_nil, isDigit_toDigits n,
    Nat.ofDigitChars_ten_toDigits, hfits⟩

theorem toList_toString_nat (n : Nat) : (toString n).toList = Nat.toDigits 10 n := by
  rw [Nat.toString_eq_ofList_toDigits, String.toList_ofList]

/-! ### Signed words -/

theorem fitsSigned_eq_true_iff {width : Nat} {n : Int} :
    fitsSigned width n = true ↔ -2 ^ (width - 1) ≤ n ∧ n < 2 ^ (width - 1) := by
  simp [fitsSigned, Nat.one_shiftLeft, and_comm]

theorem toList_toString_int (n : Int) :
    (toString n).toList = (if n < 0 then ['-'] else []) ++ Nat.toDigits 10 n.natAbs := by
  cases n with
  | ofNat m => exact String.toList_ofList
  | negSucc m =>
      rw [if_pos (Int.negSucc_lt_zero m)]
      exact String.toList_append.trans (congrArg ('-' :: ·) String.toList_ofList)

theorem readDigits?_toDigits (n : Nat) : readDigits? 10 (Nat.toDigits 10 n) = some n :=
  readDigits?_ten_eq_some_iff.mpr
    ⟨Nat.toDigits_ne_nil, isDigit_toDigits n, Nat.ofDigitChars_ten_toDigits⟩

/-- A signed word is read from its decimal form, the least one included. -/
theorem readSigned?_toString {width : Nat} {n : Int} (hfits : fitsSigned width n = true)
    {sign : List Char} (hsign : sign = [] ∨ sign = ['+'] ∧ 0 ≤ n) :
    readSigned? width 10 (sign ++ (toString n).toList) = some n := by
  have hkeep : (some n).filter (fitsSigned width) = some n := Option.filter_some_pos hfits
  rw [toList_toString_int]
  by_cases hneg : n < 0
  · obtain rfl : sign = [] := hsign.resolve_right fun hplus => Int.not_le.mpr hneg hplus.2
    have hread : (readDigits? 10 (Nat.toDigits 10 n.natAbs)).map (fun m => -(m : Int)) = some n := by
      have hvalue : -(n.natAbs : Int) = n := by omega
      rw [readDigits?_toDigits]
      exact congrArg some hvalue
    rw [if_pos hneg]
    exact (congrArg (Option.filter (fitsSigned width)) hread).trans hkeep
  · have hread : (readDigits? 10 (Nat.toDigits 10 n.natAbs)).map Int.ofNat = some n := by
      rw [readDigits?_toDigits]
      exact congrArg some (Int.natAbs_of_nonneg (Int.not_lt.mp hneg))
    have hvalue := (congrArg (Option.filter (fitsSigned width)) hread).trans hkeep
    rw [if_neg hneg, List.nil_append]
    rcases hsign with rfl | ⟨rfl, -⟩
    · -- the first digit is no sign
      obtain ⟨c, rest, hdigits, hdigit⟩ := exists_toDigits_eq_cons n.natAbs
      rw [hdigits] at hvalue ⊢
      unfold readSigned?
      split
      · next hminus =>
          cases hminus
          exact absurd hdigit (by decide)
      · next hplus =>
          cases hplus
          exact absurd hdigit (by decide)
      · exact hvalue
    · exact hvalue

theorem mapM_digitValue?_toDigits (n : Nat) :
    ∃ digits, (Nat.toDigits 10 n).mapM (digitValue? 10) = some digits ∧ digits ≠ [] ∧
      ofDigits 10 digits = n := by
  refine ⟨_, mapM_digitValue?_ten_eq_some_iff.mpr ⟨isDigit_toDigits n, rfl⟩, ?_, ?_⟩
  · rw [ne_eq, List.map_eq_nil_iff]
    exact Nat.toDigits_ne_nil
  · rw [ofDigits_map_toNat, Nat.ofDigitChars_ten_toDigits]

end Reshape.Text
