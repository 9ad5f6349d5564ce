import Reshape.Proofs.Double.Whole
import Reshape.Proofs.Filter.Representatives

/-!
# Whole numbers held against each other

Numbers are compared after they are rounded to doubles. Words that are doubles, and words held
against one of less than 53 binary digits, are compared by value; further up, neighbours are alike.
What is unique among words is what is first of its class among any values, read for the numbers.
-/

namespace Reshape

open Binary64

/-- The whole numbers that a signed or an unsigned word holds. -/
def IsWord (n : ℤ) : Prop :=
  -2 ^ 63 ≤ n ∧ n < 2 ^ 64

instance (n : ℤ) : Decidable (IsWord n) :=
  inferInstanceAs (Decidable (_ ∧ _))

/-- Two whole numbers that are rounded to one double. -/
def Alike (a b : ℤ) : Prop :=
  ∃ d : Double, d.Rounds a ∧ d.Rounds b

section Alike

variable {a b : ℤ}

theorem IsWord.exists_rounds (ha : IsWord a) : ∃ d : Double, d.Rounds a := by
  obtain ⟨d, hd⟩ := exists_ofInt_eq (n := a) (by unfold IsWord at ha; omega)
  exact ⟨d, ofInt_eq_finite_iff.mp hd⟩

theorem IsWord.alike (ha : IsWord a) : Alike a a := by
  obtain ⟨d, hd⟩ := ha.exists_rounds
  exact ⟨d, hd, hd⟩

theorem Alike.symm (halike : Alike a b) : Alike b a := by
  obtain ⟨d, hda, hdb⟩ := halike
  exact ⟨d, hdb, hda⟩

theorem alike_iff_ofInt_eq (ha : IsWord a) : Alike a b ↔ ofInt a = ofInt b := by
  unfold Alike
  simp only [← ofInt_eq_finite_iff]
  constructor
  · rintro ⟨d, hda, hdb⟩
    rw [hda, hdb]
  · intro heq
    obtain ⟨d, hd⟩ := ha.exists_rounds
    have hread := ofInt_eq_finite_iff.mpr hd
    exact ⟨d, hread, heq ▸ hread⟩

theorem alike_iff_eq (ha : IsWord a) (hexact : a.natAbs < 2 ^ 53 ∨ IsDouble a ∧ IsDouble b) :
    Alike a b ↔ a = b := by
  rw [alike_iff_ofInt_eq ha]
  rcases hexact with hlt | ⟨hdoublea, hdoubleb⟩
  · exact ofInt_eq_iff_of_lt hlt
  · exact hdoublea.ofInt_inj hdoubleb

theorem Value.looselyEqual_integer_iff (ha : IsWord a) (hb : IsWord b) :
    (Value.integer a).looselyEqual (.integer b) = true ↔ Alike a b := by
  rw [alike_iff_ofInt_eq ha]
  unfold IsWord at ha hb
  exact ofInt_same_iff (by omega) (by omega)

end Alike

/-- Of the numbers seen those kept: each the first of all that are alike, in order. -/
structure FirstAlike (seen kept : List ℤ) : Prop where
  mem : ∀ n ∈ kept, n ∈ seen
  ordered : kept.Pairwise fun m n => seen.idxOf m < seen.idxOf n
  apart : kept.Pairwise fun m n => ¬ Alike m n
  first : ∀ n ∈ seen, ∃ m ∈ kept, Alike m n ∧ seen.idxOf m ≤ seen.idxOf n

namespace Filter

open Value (integer looselyEqual_integer_iff)

section Firsts

variable {ns kept : List ℤ} {n : ℤ} {place : Nat}

theorem isFirst_words_iff (hns : ∀ n ∈ ns, IsWord n) :
    IsFirst (ns.map integer) place ↔
      ∃ n, ns[place]? = some n ∧ ∀ m ∈ ns.take place, ¬ Alike m n := by
  unfold IsFirst
  simp only [List.getElem?_map, Option.map_eq_some_iff, ← List.map_take, List.forall_mem_map,
    exists_exists_and_eq_and]
  refine exists_congr fun n => and_congr_right fun hn => forall₂_congr fun m hm => ?_
  rw [← looselyEqual_integer_iff (hns m (List.mem_of_mem_take hm))
    (hns n (List.mem_of_getElem? hn)), Bool.not_eq_true]

/-- The numbers kept stand in order where each is met first, and nothing alike stands before it. -/
theorem ListsFirsts.idxOf_words (hns : ∀ n ∈ ns, IsWord n) (hmem : ∀ n ∈ kept, n ∈ ns)
    (hfirsts : ListsFirsts (ns.map integer) (kept.map integer)) :
    (kept.Pairwise fun m n => ns.idxOf m < ns.idxOf n) ∧
      ∀ n ∈ kept, ∀ m ∈ ns.take (ns.idxOf n), ¬ Alike m n := by
  obtain ⟨places, hsorted, hplaces, hkept⟩ := hfirsts
  have hfirst : ∀ place ∈ places, ∃ n, ns[place]? = some n ∧ ∀ m ∈ ns.take place, ¬ Alike m n :=
    fun place hplace => (isFirst_words_iff hns).mp ((hplaces place).mp hplace)
  have hidxOf : kept.map ns.idxOf = places := by
    rw [List.map_map] at hkept
    refine map_eq_of_map_eq_map hkept fun n hn place hplace heq => ?_
    obtain ⟨m, hm, hnew⟩ := hfirst place hplace
    obtain rfl : n = m := by simpa [hm, integer] using heq
    exact idxOf_eq_of_notMem_take hm fun hbefore => hnew n hbefore (hns n (hmem n hn)).alike
  refine ⟨List.pairwise_map.mp (hidxOf ▸ hsorted), fun n hn => ?_⟩
  obtain ⟨m, hm, hnew⟩ := hfirst (ns.idxOf n) (hidxOf ▸ List.mem_map_of_mem hn)
  rw [List.getElem?_idxOf (hmem n hn)] at hm
  exact Option.some.inj hm ▸ hnew

theorem Represent.firstAlike (hns : ∀ n ∈ ns, IsWord n) (hsublist : kept.Sublist ns)
    (hseen : Represent (ns.map integer) (kept.map integer)) : FirstAlike ns kept := by
  have hwords : ∀ n ∈ kept, IsWord n := fun n hn => hns n (hsublist.subset hn)
  obtain ⟨hordered, hnew⟩ := hseen.firsts.idxOf_words hns fun n hn => hsublist.subset hn
  refine ⟨fun n hn => hsublist.subset hn, hordered, ?_, fun n hn => ?_⟩
  · refine (List.pairwise_map.mp hseen.apart).imp_of_mem fun {m n} hm hn hapart => ?_
    rw [← looselyEqual_integer_iff (hwords m hm) (hwords n hn), hapart]
    exact Bool.false_ne_true
  · obtain ⟨first, hfirst, hequal⟩ := hseen.covers (integer n) (List.mem_map_of_mem hn)
    obtain ⟨m, hm, rfl⟩ := List.mem_map.mp hfirst
    have halike : Alike m n := (looselyEqual_integer_iff (hwords m hm) (hns n hn)).mp hequal
    refine ⟨m, hm, halike, Nat.le_of_not_lt fun hlt => ?_⟩
    exact hnew m hm n ((List.mem_take_iff_idxOf_lt hn).mpr hlt) halike.symm

theorem exists_keepFirst_words (hns : ∀ n ∈ ns, IsWord n) :
    ∃ kept, keepFirst [] (ns.map integer) = kept.map integer ∧ FirstAlike ns kept := by
  have hself : ∀ item ∈ ns.map integer, item.looselyEqual item = true := by
    rw [List.forall_mem_map]
    exact fun n hn => (looselyEqual_integer_iff (hns n hn) (hns n hn)).mpr (hns n hn).alike
  have hseen := Represent.nil.keepFirst hself
  rw [List.nil_append] at hseen
  obtain ⟨kept, hsublist, hkept⟩ := List.sublist_map_iff.mp hseen.sublist
  rw [hkept] at hseen
  exact ⟨kept, hkept, hseen.firstAlike hns hsublist⟩

end Firsts

/-- **Whole numbers are the same where their doubles are.** Words are equal, match and count once
when they are rounded to one double. That is equality of value for a word below `2 ^ 53` and for two
words that are doubles, so that of an array of such words `unique` keeps each, in order of first
occurrence; of all others it keeps the first that is rounded to each double. -/
theorem unique_words {a b : ℤ} (ha : IsWord a) (hb : IsWord b) {ns : List ℤ}
    (hns : ∀ n ∈ ns, IsWord n) (source : Value) (args : List Arg) :
    ((integer a).looselyEqual (integer b) = true ↔ Alike a b) ∧
    ((integer a).isMatch (integer b) = true ↔ Alike a b) ∧
    (a.natAbs < 2 ^ 53 ∨ IsDouble a ∧ IsDouble b → (Alike a b ↔ a = b)) ∧
    ∃ kept, unique (.array (ns.map integer)) source args = .ok (.array (kept.map integer)) ∧
      FirstAlike ns kept ∧ ((∀ n ∈ ns, IsDouble n) → ∀ n, n ∈ kept ↔ n ∈ ns) := by
  obtain ⟨kept, hkept, hfirst⟩ := exists_keepFirst_words hns
  refine ⟨looselyEqual_integer_iff ha hb, looselyEqual_integer_iff ha hb, alike_iff_eq ha, kept,
    congrArg (fun items => Except.ok (Value.array items)) hkept, hfirst, fun hdoubles n => ?_⟩
  refine ⟨hfirst.mem n, fun hn => ?_⟩
  obtain ⟨m, hm, halike, -⟩ := hfirst.first n hn
  have hmem := hfirst.mem m hm
  rwa [← (alike_iff_eq (hns m hmem) (Or.inr ⟨hdoubles m hmem, hdoubles n hn⟩)).mp halike]

/-- An even number past `2 ^ 53` is a double, and met twice it is kept once. -/
theorem unique_words_even :
    ∃ kept : List ℤ,
      unique (.array [integer (2 ^ 53 + 2), integer 0, integer (2 ^ 53 + 2)]) .null [] =
        .ok (.array (kept.map integer)) ∧ ∀ n, n ∈ kept ↔ n ∈ [2 ^ 53 + 2, 0, (2 : ℤ) ^ 53 + 2] := by
  have hword : IsWord (2 ^ 53 + 2) := by decide
  have hwords : ∀ n ∈ [2 ^ 53 + 2, 0, (2 : ℤ) ^ 53 + 2], IsWord n := by decide
  have heven : IsDouble (2 ^ 53 + 2) := ⟨⟨false, 2 ^ 52 + 1, 1, by decide⟩, by norm_num [Double.magnitude]⟩
  have hzero : IsDouble 0 := isDouble_of_natAbs_le (by decide)
  obtain ⟨-, -, -, kept, hunique, -, hmem⟩ := unique_words hword hword hwords .null []
  refine ⟨kept, hunique, hmem ?_⟩
  simp only [List.forall_mem_cons]
  exact ⟨heven, hzero, heven, List.forall_mem_nil IsDouble⟩

/-- Between two doubles the odd number is rounded to the one with an even mantissa, and is lost
behind it. -/
theorem unique_words_odd_lost :
    (integer (2 ^ 53)).looselyEqual (integer (2 ^ 53 + 1)) = true ∧
      (integer (2 ^ 53)).isMatch (integer (2 ^ 53 + 1)) = true ∧
      unique (.array [integer (2 ^ 53), integer (2 ^ 53 + 1)]) .null [] =
        .ok (.array [integer (2 ^ 53)]) := by
  refine ⟨by decide, by decide, rfl⟩

end Filter

end Reshape
