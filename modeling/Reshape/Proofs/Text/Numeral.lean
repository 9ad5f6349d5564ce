import Reshape.Numeral
import Reshape.Proofs.Text.Blank

/-!
# Numerals

The grammar of decimal numerals, and of the words that stand for what is no finite number.
-/

namespace Reshape

namespace Text

/-- A run of digits that nothing prolongs is what the reader takes off the front of a text. -/
theorem span_isDigit {run rest : List Char} (hrun : ∀ c ∈ run, c.isDigit = true)
    (hrest : ∀ c, rest.head? = some c → c.isDigit = false) :
    (run ++ rest).takeWhile isDigit = run ∧ (run ++ rest).dropWhile isDigit = rest := by
  have hdigits : ∀ c ∈ run, isDigit c = true := fun c hmem => (isDigit_eq c).trans (hrun c hmem)
  rw [List.takeWhile_append_of_pos hdigits, List.dropWhile_append_of_pos hdigits]
  cases rest with
  | nil => exact ⟨List.append_nil run, rfl⟩
  | cons c rest =>
      have hstop : ¬ isDigit c = true := by
        rw [isDigit_eq, hrest c rfl]
        decide
      rw [List.takeWhile_cons_of_neg hstop, List.dropWhile_cons_of_neg hstop]
      exact ⟨List.append_nil run, rfl⟩

end Text

namespace Numeral

open Text

/-- The sign before a text; one that is there is not left to the text. -/
inductive Signed (rest : List Char) : List Char → Bool → Prop
  | minus : Signed rest ['-'] true
  | plus : Signed rest ['+'] false
  | none (hminus : rest.head? ≠ some '-') (hplus : rest.head? ≠ some '+') : Signed rest [] false

theorem Signed.readSign_append {rest sign : List Char} {negative : Bool}
    (hsign : Signed rest sign negative) : readSign (sign ++ rest) = (negative, rest) := by
  cases hsign with
  | minus => rfl
  | plus => rfl
  | none hminus hplus =>
      rw [List.nil_append]
      unfold readSign
      split
      · exact absurd rfl hminus
      · exact absurd rfl hplus
      · rfl

theorem exists_signed (text : List Char) :
    ∃ sign, text = sign ++ (readSign text).2 ∧ Signed (readSign text).2 sign (readSign text).1 := by
  unfold readSign
  split
  · exact ⟨_, rfl, .minus⟩
  · exact ⟨_, rfl, .plus⟩
  · next hminus hplus =>
      refine ⟨[], rfl, .none (fun hhead => ?_) fun hhead => ?_⟩
      · obtain ⟨rest, rfl⟩ := List.head?_eq_some_iff.mp hhead
        exact hminus rest rfl
      · obtain ⟨rest, rfl⟩ := List.head?_eq_some_iff.mp hhead
        exact hplus rest rfl

/-! ### The grammar -/

def IsSign (cs : List Char) : Prop :=
  cs = [] ∨ cs = ['+'] ∨ cs = ['-']

def IsDigits (cs : List Char) : Prop :=
  ∀ c ∈ cs, c.isDigit = true

/-- Digits, perhaps with a point before, among or behind them. -/
inductive IsMantissa : List Char → Prop
  | whole {digits : List Char} (hne : digits ≠ []) (hdigits : IsDigits digits) : IsMantissa digits
  | point {whole fraction : List Char} (hwhole : IsDigits whole) (hfraction : IsDigits fraction)
      (hne : whole ≠ [] ∨ fraction ≠ []) : IsMantissa (whole ++ '.' :: fraction)

inductive IsExponent : List Char → Prop
  | absent : IsExponent []
  | present {mark : Char} {sign digits : List Char} (hmark : mark = 'e' ∨ mark = 'E')
      (hsign : IsSign sign) (hne : digits ≠ []) (hdigits : IsDigits digits) :
      IsExponent (mark :: (sign ++ digits))

def IsNumeral (cs : List Char) : Prop :=
  ∃ sign mantissa exponent, cs = sign ++ (mantissa ++ exponent) ∧ IsSign sign ∧
    IsMantissa mantissa ∧ IsExponent exponent

/-- The words for what is no finite number, in any letter case. -/
def IsSpecial (cs : List Char) : Prop :=
  ∃ sign name, cs = sign ++ name ∧ IsSign sign ∧
    name.map Char.toLower ∈ ["inf".toList, "infinity".toList, "nan".toList]

/-- A text of a number: a numeral or a special word with blanks around it. -/
def IsNumberText (cs : List Char) : Prop :=
  ∃ before core after, cs = before ++ core ++ after ∧ (∀ c ∈ before, isBlank c = true) ∧
    (∀ c ∈ after, isBlank c = true) ∧ (IsNumeral core ∨ IsSpecial core)

/-! ### Numerals are read -/

section Read

variable {sign mantissa exponent digits rest cs : List Char}

theorem IsDigits.head? (hdigits : IsDigits digits) {c : Char} (hhead : digits.head? = some c) :
    c.isDigit = true :=
  hdigits c (List.mem_of_head? hhead)

/-- A sign is read as such before whatever begins with no sign. -/
theorem IsSign.exists_signed (hsign : IsSign sign) (hminus : rest.head? ≠ some '-')
    (hplus : rest.head? ≠ some '+') : ∃ negative, Signed rest sign negative := by
  rcases hsign with rfl | rfl | rfl
  · exact ⟨false, .none hminus hplus⟩
  · exact ⟨false, .plus⟩
  · exact ⟨true, .minus⟩

theorem IsMantissa.head?_append (hmantissa : IsMantissa mantissa) (rest : List Char) :
    ∃ c, (mantissa ++ rest).head? = some c ∧ (c.isDigit = true ∨ c = '.') := by
  cases hmantissa with
  | whole hne hdigits =>
      obtain ⟨c, more, rfl⟩ := List.exists_cons_of_ne_nil hne
      exact ⟨c, rfl, Or.inl (hdigits c List.mem_cons_self)⟩
  | @point whole fraction hwhole =>
      cases whole with
      | nil => exact ⟨'.', rfl, Or.inr rfl⟩
      | cons c more => exact ⟨c, rfl, Or.inl (hwhole c List.mem_cons_self)⟩

theorem isAlpha_of_isAlpha_toLower {c : Char} (hlower : c.toLower.isAlpha = true) :
    c.isAlpha = true := by
  by_cases hupper : c.isUpper = true
  · exact Bool.or_eq_true_iff.mpr (Or.inl hupper)
  · have hself : c.toLower = c := by
      unfold Char.toLower
      exact dif_neg fun hrange => hupper (decide_eq_true hrange)
    rwa [hself] at hlower

theorem isAlpha_of_mem_name {name : List Char}
    (hname : name.map Char.toLower ∈ ["inf".toList, "infinity".toList, "nan".toList]) {c : Char}
    (hmem : c ∈ name) : c.isAlpha = true := by
  have hwords : ["inf".toList, "infinity".toList, "nan".toList].all (·.all Char.isAlpha) = true := by
    decide
  have hname := List.all_eq_true.mp hwords _ hname
  exact isAlpha_of_isAlpha_toLower (List.all_eq_true.mp hname _ (List.mem_map_of_mem hmem))

theorem readSpecial?_of_isSpecial (hspecial : IsSpecial cs) :
    ∃ number, readSpecial? cs = some number := by
  obtain ⟨sign, name, rfl, hsign, hname⟩ := hspecial
  have hletter : ∀ c, name.head? = some c → c.isAlpha = true := fun c hhead =>
    isAlpha_of_mem_name hname (List.mem_of_head? hhead)
  obtain ⟨negative, hsigned⟩ : ∃ negative, Signed name sign negative :=
    hsign.exists_signed (fun hhead => absurd (hletter _ hhead) (by decide))
      fun hhead => absurd (hletter _ hhead) (by decide)
  unfold readSpecial?
  rw [hsigned.readSign_append]
  simp only [List.mem_cons, List.not_mem_nil, or_false] at hname
  rcases hname with hname | hname | hname
  · simp only [hname]
    exact ⟨_, rfl⟩
  · simp only [hname]
    exact ⟨_, rfl⟩
  · simp only [hname]
    exact ⟨_, rfl⟩

/-! ### Numerals hold no blanks -/

theorem IsSign.isBlank_eq_false (hsign : IsSign sign) : ∀ c ∈ sign, isBlank c = false := by
  rcases hsign with rfl | rfl | rfl
  · exact nofun
  · exact List.forall_mem_singleton.mpr (by decide)
  · exact List.forall_mem_singleton.mpr (by decide)

theorem IsDigits.isBlank_eq_false (hdigits : IsDigits digits) : ∀ c ∈ digits, isBlank c = false :=
  fun c hmem => isBlank_eq_false_of_isDigit (hdigits c hmem)

theorem IsMantissa.isBlank_eq_false (hmantissa : IsMantissa mantissa) :
    ∀ c ∈ mantissa, isBlank c = false := by
  cases hmantissa with
  | whole hne hdigits => exact hdigits.isBlank_eq_false
  | point hwhole hfraction =>
      exact List.forall_mem_append.mpr ⟨hwhole.isBlank_eq_false,
        List.forall_mem_cons.mpr ⟨by decide, hfraction.isBlank_eq_false⟩⟩

theorem IsExponent.isBlank_eq_false (hexponent : IsExponent exponent) :
    ∀ c ∈ exponent, isBlank c = false := by
  cases hexponent with
  | absent => exact nofun
  | present hmark hsign hne hdigits =>
      refine List.forall_mem_cons.mpr ⟨?_, List.forall_mem_append.mpr
        ⟨hsign.isBlank_eq_false, hdigits.isBlank_eq_false⟩⟩
      rcases hmark with rfl | rfl <;> decide

theorem IsNumeral.isBlank_eq_false (hnumeral : IsNumeral cs) : ∀ c ∈ cs, isBlank c = false := by
  obtain ⟨sign, mantissa, exponent, rfl, hsign, hmantissa, hexponent⟩ := hnumeral
  exact List.forall_mem_append.mpr ⟨hsign.isBlank_eq_false, List.forall_mem_append.mpr
    ⟨hmantissa.isBlank_eq_false, hexponent.isBlank_eq_false⟩⟩

theorem IsNumeral.ne_nil (hnumeral : IsNumeral cs) : cs ≠ [] := by
  obtain ⟨sign, mantissa, exponent, rfl, -, hmantissa, -⟩ := hnumeral
  obtain ⟨c, hhead, -⟩ := hmantissa.head?_append exponent
  refine List.append_ne_nil_of_right_ne_nil sign fun hnil => ?_
  rw [hnil] at hhead
  cases hhead

theorem IsSpecial.isBlank_eq_false (hspecial : IsSpecial cs) : ∀ c ∈ cs, isBlank c = false := by
  obtain ⟨sign, name, rfl, hsign, hname⟩ := hspecial
  exact List.forall_mem_append.mpr ⟨hsign.isBlank_eq_false,
    fun c hmem => isBlank_eq_false_of_isAlpha (isAlpha_of_mem_name hname hmem)⟩

theorem IsSpecial.ne_nil (hspecial : IsSpecial cs) : cs ≠ [] := by
  obtain ⟨sign, name, rfl, -, hname⟩ := hspecial
  refine List.append_ne_nil_of_right_ne_nil sign ?_
  rintro rfl
  revert hname
  decide

end Read

end Numeral

end Reshape
