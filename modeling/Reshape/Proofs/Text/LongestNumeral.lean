import Mathlib.Data.Nat.Find
import Reshape.Proofs.Text.Numeral

/-!
# Numerals before other text

The reader takes the longest numeral off the front of a text. The parts of a longest numeral are
longest themselves, the mantissa before what follows the sign and the exponent before what follows
the mantissa, so that each stage of the reader stops where the grammar does. The number read is that
of the numeral by itself.
-/

namespace Reshape

namespace Text

/-- The longest text of a kind at the front of another. -/
structure Longest (kind : List Char → Prop) (text front : List Char) : Prop where
  isKind : kind front
  begins : front <+: text
  longest : ∀ other, kind other → other <+: text → other.length ≤ front.length

variable {kind : List Char → Prop} {text front other : List Char}

theorem Longest.unique (hfront : Longest kind text front) (hother : Longest kind text other) :
    front = other := by
  have hlength := Nat.le_antisymm (hother.longest front hfront.isKind hfront.begins)
    (hfront.longest other hother.isKind hother.begins)
  exact (List.prefix_of_prefix_length_le hfront.begins hother.begins (Nat.le_of_eq hlength)).eq_of_length
    hlength

/-- Nothing of what follows prolongs it. -/
theorem Longest.not_kind_append {more rest : List Char} (hfront : Longest kind (front ++ rest) front)
    (hmore : more <+: rest) (hne : more ≠ []) : ¬ kind (front ++ more) := by
  intro hkind
  have hlength := hfront.longest (front ++ more) hkind ((List.prefix_append_right_inj front).mpr hmore)
  rw [List.length_append] at hlength
  exact hne (List.eq_nil_of_length_eq_zero (by omega))

theorem Longest.not_isDigit {rest : List Char} (hfront : Longest kind (front ++ rest) front)
    (hnext : ∀ c, c.isDigit = true → kind (front ++ [c])) {c : Char}
    (hhead : rest.head? = some c) : c.isDigit = false := by
  obtain ⟨more, rfl⟩ := List.head?_eq_some_iff.mp hhead
  rw [← Bool.not_eq_true]
  intro hdigit
  exact hfront.not_kind_append (List.prefix_append [c] more) (List.cons_ne_nil c []) (hnext c hdigit)

theorem longest_self (hfront : kind front) : Longest kind front front :=
  ⟨hfront, List.prefix_refl front, fun _ _ hbegins => hbegins.length_le⟩

theorem exists_longest (hfront : kind front) (hbegins : front <+: text) :
    ∃ longest, Longest kind text longest := by
  classical
  let ofLength : Nat → Prop := fun n => ∃ other, kind other ∧ other <+: text ∧ other.length = n
  have hlength : ofLength front.length := ⟨front, hfront, hbegins, rfl⟩
  obtain ⟨longest, hkind, hlongest, hgreatest⟩ :=
    Nat.findGreatest_spec hbegins.length_le hlength
  refine ⟨longest, hkind, hlongest, fun other hother hmore => ?_⟩
  rw [hgreatest]
  exact Nat.le_findGreatest hmore.length_le ⟨other, hother, hmore, rfl⟩

end Text

namespace Numeral

open Text

/-! ### The stages of the reader -/

/-- The digits behind a point, and what follows; a point alone is no part of a numeral. -/
def readFraction (whole after : List Char) : List Char × List Char :=
  match after with
  | '.' :: rest =>
    if whole.isEmpty && (rest.takeWhile isDigit).isEmpty then ([], after)
    else (rest.takeWhile isDigit, rest.dropWhile isDigit)
  | _ => ([], after)

/-- The digits before the point and those behind it, and what follows. -/
def readMantissa (cs : List Char) : (List Char × List Char) × List Char :=
  let whole := cs.takeWhile isDigit
  let behind := readFraction whole (cs.dropWhile isDigit)
  ((whole, behind.1), behind.2)

/-- The number with a sign, digits before and behind the point, and a power of ten. -/
def ofParts (negative : Bool) (whole fraction : List Char) (power : Int) : Numeral :=
  ⟨negative, ofDigits 10 ((whole ++ fraction).filterMap (digitValue? 10)), power - fraction.length⟩

theorem readLongest?_eq (cs : List Char) :
    readLongest? cs =
      let (negative, unsigned) := readSign cs
      let ((whole, fraction), after) := readMantissa unsigned
      let (power, rest) := readExponent after
      if whole.isEmpty && fraction.isEmpty then none
      else some (ofParts negative whole fraction power, rest) :=
  rfl

section Stages

variable {sign mantissa exponent numeral whole after rest cs : List Char} {negative : Bool}

/-! ### The sign -/

theorem Signed.isSign (hsigned : Signed rest sign negative) : IsSign sign := by
  cases hsigned with
  | minus => exact Or.inr (Or.inr rfl)
  | plus => exact Or.inr (Or.inl rfl)
  | none => exact Or.inl rfl

theorem exists_sign_append (text : List Char) :
    ∃ sign unsigned negative, text = sign ++ unsigned ∧ Signed unsigned sign negative := by
  obtain ⟨sign, hsplit, hsigned⟩ := exists_signed text
  exact ⟨sign, _, _, hsplit, hsigned⟩

/-- A sign is the same before all texts that begin in one way, without a sign. -/
theorem IsSign.exists_signed_append (hsign : IsSign sign) {first : Char}
    (hfirst : cs.head? = some first) (hminus : first ≠ '-') (hplus : first ≠ '+') :
    ∃ negative, ∀ rest, Signed (cs ++ rest) sign negative := by
  have hhead : ∀ rest, (cs ++ rest).head? = some first := fun rest => by simp [hfirst]
  have hnone : ∀ rest, (cs ++ rest).head? ≠ some '-' ∧ (cs ++ rest).head? ≠ some '+' := by
    simp [hhead, hminus, hplus]
  rcases hsign with rfl | rfl | rfl
  · exact ⟨false, fun rest => .none (hnone rest).1 (hnone rest).2⟩
  · exact ⟨false, fun rest => .plus⟩
  · exact ⟨true, fun rest => .minus⟩

/-! ### The mantissa -/

theorem isDigits_takeWhile (text : List Char) : IsDigits (text.takeWhile isDigit) := fun c hmem =>
  (isDigit_eq c).symm.trans (List.all_eq_true.mp List.all_takeWhile c hmem)

theorem IsDigits.append_digit {digits : List Char} (hdigits : IsDigits digits) {c : Char}
    (hdigit : c.isDigit = true) : IsDigits (digits ++ [c]) :=
  List.forall_mem_append.mpr ⟨hdigits, List.forall_mem_singleton.mpr hdigit⟩

theorem IsMantissa.append_digit (hmantissa : IsMantissa mantissa) {c : Char}
    (hdigit : c.isDigit = true) : IsMantissa (mantissa ++ [c]) := by
  cases hmantissa with
  | whole hne hdigits => exact .whole (by simp) (hdigits.append_digit hdigit)
  | @point whole fraction hwhole hfraction hne =>
      rw [List.append_assoc, List.cons_append]
      exact .point hwhole (hfraction.append_digit hdigit) (Or.inr (by simp))

theorem readFraction_of_head?_ne (hpoint : after.head? ≠ some '.') :
    readFraction whole after = ([], after) := by
  unfold readFraction
  split
  · exact absurd rfl hpoint
  · rfl

theorem readFraction_point
    (hdigits : ¬ (whole.isEmpty && (rest.takeWhile isDigit).isEmpty) = true) :
    readFraction whole ('.' :: rest) = (rest.takeWhile isDigit, rest.dropWhile isDigit) :=
  if_neg hdigits

/-- A mantissa is split in the same way before whatever does not prolong it. -/
theorem readMantissa_append (hmantissa : IsMantissa mantissa) :
    ∃ whole fraction, ¬ (whole.isEmpty && fraction.isEmpty) = true ∧
      ∀ rest, Longest IsMantissa (mantissa ++ rest) mantissa →
        readMantissa (mantissa ++ rest) = ((whole, fraction), rest) := by
  have hstop : ∀ {rest : List Char}, Longest IsMantissa (mantissa ++ rest) mantissa →
      ∀ c, rest.head? = some c → c.isDigit = false :=
    fun hlongest c hhead => hlongest.not_isDigit (fun _ => hmantissa.append_digit) hhead
  cases hmantissa with
  | whole hne hdigits =>
      refine ⟨mantissa, [], by simpa using hne, fun rest hlongest => ?_⟩
      have hpoint : rest.head? ≠ some '.' := by
        intro hhead
        obtain ⟨more, rfl⟩ := List.head?_eq_some_iff.mp hhead
        exact hlongest.not_kind_append (List.prefix_append ['.'] more) (by simp)
          (.point hdigits (List.forall_mem_nil _) (Or.inl hne))
      obtain ⟨htake, hdrop⟩ := span_isDigit hdigits (hstop hlongest)
      rw [readMantissa, htake, hdrop, readFraction_of_head?_ne hpoint]
  | @point whole fraction hwhole hfraction hne =>
      have hempty : ¬ (whole.isEmpty && fraction.isEmpty) = true := by
        rw [Bool.and_eq_true, List.isEmpty_iff, List.isEmpty_iff]
        rintro ⟨rfl, rfl⟩
        exact hne.elim (absurd rfl) (absurd rfl)
      refine ⟨whole, fraction, hempty, fun rest hlongest => ?_⟩
      have hdot : ∀ c, ('.' :: (fraction ++ rest)).head? = some c → c.isDigit = false := by
        rintro c ⟨⟩
        decide
      obtain ⟨htakeWhole, hdropWhole⟩ := span_isDigit hwhole hdot
      obtain ⟨htake, hdrop⟩ := span_isDigit hfraction (hstop hlongest)
      rw [← htake] at hempty
      rw [List.append_assoc, List.cons_append, readMantissa, htakeWhole, hdropWhole,
        readFraction_point hempty, htake, hdrop]

theorem exists_isMantissa (hread : ¬ ((readMantissa cs).1.1.isEmpty &&
    (readMantissa cs).1.2.isEmpty) = true) : ∃ mantissa, IsMantissa mantissa ∧ mantissa <+: cs := by
  by_cases hwhole : cs.takeWhile isDigit = []
  · have hsplit : cs.takeWhile isDigit ++ cs.dropWhile isDigit = cs :=
      List.takeWhile_append_dropWhile
    rw [hwhole, List.nil_append] at hsplit
    rw [readMantissa, hwhole, hsplit] at hread
    unfold readFraction at hread
    split at hread
    · next rest =>
        by_cases hfraction : rest.takeWhile isDigit = []
        · simp [hfraction] at hread
        · exact ⟨_, .point (List.forall_mem_nil _) (isDigits_takeWhile rest) (Or.inr hfraction),
            List.cons_prefix_cons.mpr ⟨rfl, List.takeWhile_prefix isDigit⟩⟩
    · exact absurd rfl hread
  · exact ⟨_, .whole hwhole (isDigits_takeWhile cs), List.takeWhile_prefix isDigit⟩

/-! ### The exponent -/

/-- A text at whose front only the empty exponent stands is left as it is. -/
theorem readExponent_of_absent (habsent : Longest IsExponent rest []) :
    readExponent rest = (0, rest) := by
  cases rest with
  | nil => rfl
  | cons mark more =>
      by_cases hmark : mark = 'e' ∨ mark = 'E'
      · obtain ⟨sign, hsplit, hsigned⟩ := exists_signed more
        have hdigits : (readSign more).2.takeWhile isDigit = [] := by
          by_contra hne
          have hexponent : IsExponent (mark :: (sign ++ (readSign more).2.takeWhile isDigit)) :=
            .present hmark hsigned.isSign hne (isDigits_takeWhile _)
          have hbegins : sign ++ (readSign more).2.takeWhile isDigit <+:
              sign ++ (readSign more).2 :=
            (List.prefix_append_right_inj sign).mpr (List.takeWhile_prefix isDigit)
          rw [← hsplit] at hbegins
          have hlength := habsent.longest _ hexponent (List.cons_prefix_cons.mpr ⟨rfl, hbegins⟩)
          cases hlength
        simp [readExponent, hmark, hdigits]
      · simp [readExponent, hmark]

theorem readExponent_append (hexponent : IsExponent exponent) :
    ∃ power, ∀ rest, Longest IsExponent (exponent ++ rest) exponent →
      readExponent (exponent ++ rest) = (power, rest) := by
  cases hexponent with
  | absent => exact ⟨0, fun rest habsent => readExponent_of_absent habsent⟩
  | @present mark sign digits hmark hsign hne hdigits =>
      obtain ⟨first, hfirst⟩ : ∃ first, digits.head? = some first :=
        ⟨digits.head hne, List.head?_eq_some_head hne⟩
      obtain ⟨negative, hsigned⟩ := hsign.exists_signed_append hfirst
        (ne_of_isDigit (hdigits.head? hfirst) (by decide))
        (ne_of_isDigit (hdigits.head? hfirst) (by decide))
      have hempty : ¬ digits.isEmpty = true := by
        rwa [List.isEmpty_iff]
      let magnitude : Nat := ofDigits 10 (digits.filterMap (digitValue? 10))
      refine ⟨if negative then -(magnitude : Int) else magnitude, fun rest hlongest => ?_⟩
      have hstop : ∀ c, rest.head? = some c → c.isDigit = false := by
        refine fun c => hlongest.not_isDigit fun next hdigit => ?_
        rw [List.cons_append, List.append_assoc]
        exact .present hmark hsign (by simp) (hdigits.append_digit hdigit)
      obtain ⟨htake, hdrop⟩ := span_isDigit hdigits hstop
      rw [List.cons_append, List.append_assoc]
      simp only [readExponent, if_pos hmark, (hsigned rest).readSign_append, htake, hdrop,
        if_neg hempty]
      rfl

/-! ### The numeral -/

theorem IsMantissa.isDigit_or_eq (hmantissa : IsMantissa mantissa) :
    ∀ c ∈ mantissa, c.isDigit = true ∨ c = '.' := by
  cases hmantissa with
  | whole hne hdigits => exact fun c hmem => Or.inl (hdigits c hmem)
  | point hwhole hfraction =>
      exact List.forall_mem_append.mpr ⟨fun c hmem => Or.inl (hwhole c hmem),
        List.forall_mem_cons.mpr ⟨Or.inr rfl, fun c hmem => Or.inl (hfraction c hmem)⟩⟩

/-- Only the mark of an exponent stops a mantissa that could go on. -/
theorem longest_mantissa (hsign : IsSign sign) (hmantissa : IsMantissa mantissa)
    (hexponent : IsExponent exponent)
    (hlongest : Longest IsNumeral (sign ++ (mantissa ++ exponent) ++ rest)
      (sign ++ (mantissa ++ exponent))) :
    Longest IsMantissa (mantissa ++ (exponent ++ rest)) mantissa := by
  refine ⟨hmantissa, List.prefix_append _ _, fun other hother hbegins => ?_⟩
  by_contra hlonger
  obtain ⟨more, rfl⟩ : mantissa <+: other :=
    List.prefix_of_prefix_length_le (List.prefix_append _ _) hbegins (by omega)
  have hne : more ≠ [] := by
    rintro rfl
    simp at hlonger
  have hmore : more <+: exponent ++ rest := (List.prefix_append_right_inj mantissa).mp hbegins
  cases hexponent with
  | absent =>
      refine hlongest.not_kind_append hmore hne ?_
      exact ⟨sign, mantissa ++ more, [], by simp, hsign, hother, .absent⟩
  | @present mark _ _ hmark =>
      -- what prolongs the mantissa would begin with the mark
      obtain ⟨c, tail, rfl⟩ := List.exists_cons_of_ne_nil hne
      obtain rfl : c = mark := (List.cons_prefix_cons.mp hmore).1
      have hclass := hother.isDigit_or_eq c (by simp)
      revert hclass
      rcases hmark with rfl | rfl <;> decide

theorem longest_exponent (hsign : IsSign sign) (hmantissa : IsMantissa mantissa)
    (hexponent : IsExponent exponent)
    (hlongest : Longest IsNumeral (sign ++ (mantissa ++ exponent) ++ rest)
      (sign ++ (mantissa ++ exponent))) :
    Longest IsExponent (exponent ++ rest) exponent := by
  refine ⟨hexponent, List.prefix_append _ _, fun other hother hbegins => ?_⟩
  have hbegins : sign ++ (mantissa ++ other) <+: sign ++ (mantissa ++ exponent) ++ rest := by
    rw [List.append_assoc, List.append_assoc, List.prefix_append_right_inj,
      List.prefix_append_right_inj]
    exact hbegins
  have hlength := hlongest.longest _ ⟨sign, mantissa, other, rfl, hsign, hmantissa, hother⟩ hbegins
  simp only [List.length_append] at hlength
  omega

/-- A numeral is read as one number before whatever does not prolong it. -/
theorem exists_readLongest?_append (hnumeral : IsNumeral numeral) :
    ∃ n, ∀ rest, Longest IsNumeral (numeral ++ rest) numeral →
      readLongest? (numeral ++ rest) = some (n, rest) := by
  obtain ⟨sign, mantissa, exponent, rfl, hsign, hmantissa, hexponent⟩ := hnumeral
  obtain ⟨first, hfirst, hclass⟩ := hmantissa.head?_append []
  rw [List.append_nil] at hfirst
  have hunsigned : first ≠ '-' ∧ first ≠ '+' := by
    rcases hclass with hdigit | rfl
    · exact ⟨ne_of_isDigit hdigit (by decide), ne_of_isDigit hdigit (by decide)⟩
    · decide
  obtain ⟨negative, hsigned⟩ := hsign.exists_signed_append hfirst hunsigned.1 hunsigned.2
  obtain ⟨whole, fraction, hempty, hmantissas⟩ := readMantissa_append hmantissa
  obtain ⟨power, hexponents⟩ := readExponent_append hexponent
  refine ⟨ofParts negative whole fraction power, fun rest hlongest => ?_⟩
  have hparts := hmantissas _ (longest_mantissa hsign hmantissa hexponent hlongest)
  have hpower := hexponents _ (longest_exponent hsign hmantissa hexponent hlongest)
  rw [List.append_assoc, List.append_assoc, readLongest?_eq]
  simp only [(hsigned _).readSign_append, hparts, hpower, if_neg hempty]

theorem readLongest?_of_isNumeral (hnumeral : IsNumeral numeral) :
    ∃ n, readLongest? numeral = some (n, []) := by
  obtain ⟨n, hread⟩ := exists_readLongest?_append hnumeral
  have hself := hread []
  rw [List.append_nil] at hself
  exact ⟨n, hself (longest_self hnumeral)⟩

/-- A text of a number is read once the blanks around it are off. -/
theorem readNumber?_of_isNumberText (hnumber : IsNumberText cs) :
    ∃ number, readNumber? (trim cs) = some number := by
  obtain ⟨before, core, after, rfl, hbefore, hafter, hcore⟩ := hnumber
  have hclean : ∀ c ∈ core, isBlank c = false :=
    hcore.elim IsNumeral.isBlank_eq_false IsSpecial.isBlank_eq_false
  have hne : core ≠ [] := hcore.elim IsNumeral.ne_nil IsSpecial.ne_nil
  rw [trim_append hne hbefore hclean hafter, readNumber?, read?]
  rcases hcore with hnumeral | hspecial
  · obtain ⟨numeral, hread⟩ := readLongest?_of_isNumeral hnumeral
    rw [hread]
    exact ⟨_, rfl⟩
  · obtain ⟨number, hread⟩ := readSpecial?_of_isSpecial hspecial
    rw [hread]
    split
    · exact ⟨_, rfl⟩
    · exact ⟨_, rfl⟩

theorem readLongest?_eq_none_iff :
    readLongest? cs = none ↔ ∀ front, front <+: cs → ¬ IsNumeral front := by
  constructor
  · intro hnone front hbegins hfront
    obtain ⟨longest, hlongest⟩ := exists_longest hfront hbegins
    obtain ⟨rest, rfl⟩ := hlongest.begins
    obtain ⟨n, hread⟩ := exists_readLongest?_append hlongest.isKind
    rw [hread rest hlongest] at hnone
    cases hnone
  · intro hnone
    obtain ⟨sign, hsplit, hsigned⟩ := exists_signed cs
    rw [readLongest?_eq]
    refine if_pos ?_
    by_contra hread
    obtain ⟨mantissa, hmantissa, hbegins⟩ := exists_isMantissa hread
    refine hnone (sign ++ mantissa) ?_
      ⟨sign, mantissa, [], by rw [List.append_nil], hsigned.isSign, hmantissa, .absent⟩
    rw [hsplit]
    exact (List.prefix_append_right_inj sign).mpr hbegins

theorem longest_of_readLongest? {n : Numeral}
    (hread : readLongest? (numeral ++ rest) = some (n, rest)) :
    Longest IsNumeral (numeral ++ rest) numeral := by
  have hsome : ¬ ∀ front, front <+: numeral ++ rest → ¬ IsNumeral front := by
    rw [← readLongest?_eq_none_iff, hread]
    exact nofun
  push Not at hsome
  obtain ⟨front, hbegins, hfront⟩ := hsome
  obtain ⟨longest, hlongest⟩ := exists_longest hfront hbegins
  obtain ⟨others, hsplit⟩ := hlongest.begins
  obtain ⟨m, hothers⟩ := exists_readLongest?_append hlongest.isKind
  have hsame := hothers others (hsplit ▸ hlongest)
  rw [hsplit, hread] at hsame
  obtain ⟨-, rfl⟩ := Prod.mk.inj (Option.some.inj hsame)
  rwa [List.append_cancel_right hsplit] at hlongest

/-- The longest numeral by itself is the number that is read before other text. -/
theorem readNumber?_of_longest (hlongest : Longest IsNumeral cs numeral) :
    ∃ number, readNumber? numeral = some number ∧
      (readLongest? cs).map (fun read => read.1.value) = some number := by
  obtain ⟨rest, rfl⟩ := hlongest.begins
  obtain ⟨n, hread⟩ := exists_readLongest?_append hlongest.isKind
  have hself := hread []
  rw [List.append_nil] at hself
  refine ⟨n.value, ?_, ?_⟩
  · rw [readNumber?, read?, hself (longest_self hlongest.isKind)]
    rfl
  · rw [hread rest hlongest]
    rfl

end Stages

end Numeral

end Reshape
