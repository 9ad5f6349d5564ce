import Mathlib.Algebra.BigOperators.Group.List.Basic
import Mathlib.Algebra.Order.Ring.Int
import Mathlib.Data.List.ReduceOption
import Reshape.Filter.Collection
import Reshape.Proofs.Text.Digits

/-!
# Sums of whole numbers

A sum stays exact as long as every partial total is a signed word, whatever the whole total is. If
the negative and the positive numbers each add up to a signed word, then so do the partial totals of
every order.
-/

namespace Reshape.Filter

def IsSignedWord (n : ℤ) : Prop :=
  -2 ^ 63 ≤ n ∧ n < 2 ^ 63

instance (n : ℤ) : Decidable (IsSignedWord n) :=
  inferInstanceAs (Decidable (_ ∧ _))

/-- Added one by one to a first total, the numbers never leave the signed words. -/
def ExactFrom (start : ℤ) (ns : List ℤ) : Prop :=
  ∀ front, front <+: ns → IsSignedWord (start + front.sum)

/-- The negative and the positive numbers each add up to a signed word. -/
def Enveloped (ns : List ℤ) : Prop :=
  -2 ^ 63 ≤ (ns.filter (· < 0)).sum ∧ (ns.filter (0 < ·)).sum < 2 ^ 63

section ExactFrom

variable {start n : ℤ} {ns selected : List ℤ}

theorem ExactFrom.isSignedWord (hexact : ExactFrom start ns) : IsSignedWord start := by
  have hstart := hexact [] List.nil_prefix
  rwa [List.sum_nil, add_zero] at hstart

theorem exactFrom_nil : ExactFrom start [] ↔ IsSignedWord start := by
  refine ⟨ExactFrom.isSignedWord, fun hstart front hfront => ?_⟩
  rwa [List.prefix_nil.mp hfront, List.sum_nil, add_zero]

theorem exactFrom_cons :
    ExactFrom start (n :: ns) ↔ IsSignedWord start ∧ ExactFrom (start + n) ns := by
  constructor
  · intro hexact
    refine ⟨hexact.isSignedWord, fun front hfront => ?_⟩
    rw [add_assoc, ← List.sum_cons]
    exact hexact (n :: front) (List.cons_prefix_cons.mpr ⟨rfl, hfront⟩)
  · rintro ⟨hstart, hexact⟩ front hfront
    rcases List.prefix_cons_iff.mp hfront with rfl | ⟨behind, rfl, hbehind⟩
    · rwa [List.sum_nil, add_zero]
    · rw [List.sum_cons, ← add_assoc]
      exact hexact behind hbehind

theorem sum_filter_cons (p : ℤ → Bool) :
    ((n :: ns).filter p).sum = (if p n then n else 0) + (ns.filter p).sum := by
  rw [List.filter_cons]
  split
  · rw [List.sum_cons]
  · rw [zero_add]

/-- No selection adds up to less than all negative numbers, or to more than all positive ones. -/
theorem sublist_sum_bounds (hselected : selected.Sublist ns) :
    (ns.filter (· < 0)).sum ≤ selected.sum ∧ selected.sum ≤ (ns.filter (0 < ·)).sum := by
  induction hselected with
  | slnil => exact ⟨Int.le_refl _, Int.le_refl _⟩
  | cons n _ ih =>
      simp only [sum_filter_cons, decide_eq_true_eq]
      split <;> split <;> omega
  | cons_cons n _ ih =>
      simp only [sum_filter_cons, decide_eq_true_eq, List.sum_cons]
      split <;> split <;> omega

theorem Enveloped.exactFrom_zero (henveloped : Enveloped ns) {ms : List ℤ} (hperm : ns.Perm ms) :
    ExactFrom 0 ms := by
  intro front hfront
  obtain ⟨habove, hbelow⟩ := sublist_sum_bounds hfront.sublist
  rw [← (hperm.filter _).sum_eq] at habove hbelow
  rw [zero_add]
  exact ⟨henveloped.1.trans habove, hbelow.trans_lt henveloped.2⟩

end ExactFrom

/-! ### Running totals -/

namespace Total

variable {total : Total} {n next m : ℤ} {ns : List ℤ}

theorem add_exact_eq_some_iff : (total.add (.integer n)).exact = some next ↔
    ∃ start, total.exact = some start ∧ next = start + n ∧ IsSignedWord n ∧ IsSignedWord next := by
  have hfits : ∀ k, Text.fitsSigned 64 k = true ↔ IsSignedWord k := fun k =>
    Text.fitsSigned_eq_true_iff
  obtain ⟨exact, approximate⟩ := total
  cases exact with
  | none => simp [add]
  | some start =>
      have hadd : (add ⟨some start, approximate⟩ (.integer n)).exact =
          [start + n].find? fun next => Text.fitsSigned 64 n && Text.fitsSigned 64 next := rfl
      rw [hadd, List.find?_singleton]
      simp only [Option.ite_none_right_eq_some, Bool.and_eq_true, hfits, Option.some.injEq,
        exists_eq_left']
      constructor
      · rintro ⟨⟨hn, hword⟩, rfl⟩
        exact ⟨rfl, hn, hword⟩
      · rintro ⟨rfl, hn, hword⟩
        exact ⟨⟨hn, hword⟩, rfl⟩

def addAll (total : Total) (ns : List ℤ) : Total :=
  ns.foldl (fun total n => total.add (.integer n)) total

/-- The exact total is there just when no partial total has left the signed words. -/
theorem addAll_exact_eq_some_iff (hns : ∀ n ∈ ns, IsSignedWord n)
    (hstart : ∀ start, total.exact = some start → IsSignedWord start) :
    (total.addAll ns).exact = some m ↔
      ∃ start, total.exact = some start ∧ ExactFrom start ns ∧ m = start + ns.sum := by
  induction ns generalizing total with
  | nil =>
      constructor
      · intro hexact
        exact ⟨m, hexact, exactFrom_nil.mpr (hstart m hexact), (add_zero m).symm⟩
      · rintro ⟨start, hexact, -, rfl⟩
        rw [List.sum_nil, add_zero]
        exact hexact
  | cons n ns ih =>
      rw [List.forall_mem_cons] at hns
      have hnext : ∀ next, (total.add (.integer n)).exact = some next → IsSignedWord next := by
        intro next hnext
        obtain ⟨-, -, -, -, hword⟩ := add_exact_eq_some_iff.mp hnext
        exact hword
      refine (ih hns.2 hnext).trans ⟨?_, ?_⟩
      · rintro ⟨next, hadd, hexact, rfl⟩
        obtain ⟨start, htotal, rfl, -, -⟩ := add_exact_eq_some_iff.mp hadd
        refine ⟨start, htotal, exactFrom_cons.mpr ⟨hstart start htotal, hexact⟩, ?_⟩
        rw [List.sum_cons, add_assoc]
      · rintro ⟨start, htotal, hexact, rfl⟩
        obtain ⟨-, hexact⟩ := exactFrom_cons.mp hexact
        have hadd := add_exact_eq_some_iff.mpr ⟨start, htotal, rfl, hns.1, hexact.isSignedWord⟩
        refine ⟨start + n, hadd, hexact, ?_⟩
        rw [List.sum_cons, add_assoc]

theorem addAll_approximate : (total.addAll ns).approximate =
    ns.foldl (fun sum n => sum.add (.ofInt n)) total.approximate := by
  induction ns generalizing total with
  | nil => rfl
  | cons n ns ih => exact ih

end Total

/-- The numbers rounded to doubles and added up, with every sum rounded again. -/
def roundedSum (ns : List ℤ) : Binary64 :=
  ns.foldl (fun sum n => sum.add (.ofInt n)) Total.zero.approximate

def summand : Option ℤ → Value
  | none => .null
  | some n => .integer n

theorem sumItems_summands (total : Total) (index : Nat) (items : List (Option ℤ)) :
    sumItems total index (items.map summand) = .ok (total.addAll items.reduceOption) := by
  induction items generalizing total index with
  | nil => rfl
  | cons item items ih =>
      cases item with
      | none => exact ih total (index + 1)
      | some n => exact ih (total.add (.integer n)) (index + 1)

section Sum

variable {items : List (Option ℤ)} (source : Value) (args : List Arg)

theorem sum_summands : sum (.array (items.map summand)) source args =
    match (Total.zero.addAll items.reduceOption).exact with
    | some n => .ok (.integer n)
    | none => numberOf (roundedSum items.reduceOption) := by
  have hrun : sumItems .zero 0 (items.map summand) = .ok (Total.zero.addAll items.reduceOption) :=
    sumItems_summands .zero 0 items
  simp only [sum, hrun, bind, Except.bind, Total.addAll_approximate]
  rfl

theorem addAll_zero_exact_eq_some_iff (hitems : ∀ n ∈ items.reduceOption, IsSignedWord n) {m : ℤ} :
    (Total.zero.addAll items.reduceOption).exact = some m ↔
      ExactFrom 0 items.reduceOption ∧ m = items.reduceOption.sum := by
  have hstart : ∀ start, Total.zero.exact = some start → IsSignedWord start := by
    intro start hstart
    obtain rfl : 0 = start := Option.some.inj hstart
    decide
  rw [Total.addAll_exact_eq_some_iff hitems hstart]
  simp [Total.zero]

theorem sum_of_exactFrom (hitems : ∀ n ∈ items.reduceOption, IsSignedWord n)
    (hexact : ExactFrom 0 items.reduceOption) :
    sum (.array (items.map summand)) source args = .ok (.integer items.reduceOption.sum) := by
  rw [sum_summands, (addAll_zero_exact_eq_some_iff hitems).mpr ⟨hexact, rfl⟩]

/-- **Sums stay exact on the way.** An array of signed words and nulls adds up to its total, as an
integer, if every partial total is a signed word, and otherwise to the sum of doubles. So two orders
that stay exact have the same sum, and all orders do if the negative and the positive numbers each
add up to a signed word. -/
theorem sum_signed_words (hitems : ∀ n ∈ items.reduceOption, IsSignedWord n) :
    (ExactFrom 0 items.reduceOption →
      sum (.array (items.map summand)) source args = .ok (.integer items.reduceOption.sum)) ∧
    (¬ ExactFrom 0 items.reduceOption → sum (.array (items.map summand)) source args =
      numberOf (roundedSum items.reduceOption)) ∧
    (∀ others : List (Option ℤ), items.Perm others → ExactFrom 0 items.reduceOption →
      ExactFrom 0 others.reduceOption →
        sum (.array (others.map summand)) source args =
          sum (.array (items.map summand)) source args) ∧
    (Enveloped items.reduceOption → ∀ others : List (Option ℤ), items.Perm others →
      sum (.array (others.map summand)) source args = .ok (.integer items.reduceOption.sum)) := by
  have hothers : ∀ others : List (Option ℤ), items.Perm others → ExactFrom 0 others.reduceOption →
      sum (.array (others.map summand)) source args = .ok (.integer items.reduceOption.sum) := by
    intro others hperm hexact
    have hnumbers : items.reduceOption.Perm others.reduceOption := hperm.filterMap id
    have hwords : ∀ n ∈ others.reduceOption, IsSignedWord n := fun n hn =>
      hitems n (hnumbers.mem_iff.mpr hn)
    rw [sum_of_exactFrom source args hwords hexact, hnumbers.sum_eq]
  refine ⟨sum_of_exactFrom source args hitems, fun hleft => ?_, fun others hperm hexact hexact' => ?_,
    fun henveloped others hperm => ?_⟩
  · have hnone : (Total.zero.addAll items.reduceOption).exact = none := by
      rw [Option.eq_none_iff_forall_ne_some]
      intro m hm
      exact hleft ((addAll_zero_exact_eq_some_iff hitems).mp hm).1
    rw [sum_summands, hnone]
  · rw [hothers others hperm hexact', sum_of_exactFrom source args hitems hexact]
  · exact hothers others hperm (henveloped.exactFrom_zero (hperm.filterMap id))

/-- The greatest signed word is reached again, from below. -/
theorem sum_signed_words_reached :
    sum (.array [.integer (2 ^ 63 - 1), .null, .integer (-1), .integer 1]) .null [] =
      .ok (.integer (2 ^ 63 - 1)) := by
  have hitems : ∀ n ∈ [some (2 ^ 63 - 1), none, some (-1), some (1 : ℤ)].reduceOption,
      IsSignedWord n := by decide
  have hexact : ExactFrom 0 [2 ^ 63 - 1, -1, (1 : ℤ)] := by
    simp only [exactFrom_cons, exactFrom_nil]
    decide
  exact (sum_signed_words .null [] hitems).1 hexact

/-- The same numbers leave the signed words on the way and are rounded, and backwards they are not. -/
theorem sum_signed_words_left :
    let numbers : List (Option ℤ) := [some (2 ^ 63 - 1), some 1, some (-1)]
    (∀ n ∈ numbers.reduceOption, IsSignedWord n) ∧ numbers.reduceOption.sum = 2 ^ 63 - 1 ∧
      sum (.array (numbers.map summand)) .null [] =
        .ok (.number (.double ⟨false, 2 ^ 52, 11, by decide⟩)) ∧
      sum (.array (numbers.reverse.map summand)) .null [] = .ok (.integer (2 ^ 63 - 1)) := by
  intro numbers
  have hleft : (Total.zero.addAll numbers.reduceOption).exact = none := by decide
  have hrounded : roundedSum numbers.reduceOption = .finite ⟨false, 2 ^ 52, 11, by decide⟩ := by
    decide +kernel
  have hback : (Total.zero.addAll numbers.reverse.reduceOption).exact = some (2 ^ 63 - 1) := by
    decide
  refine ⟨by decide, by decide, ?_, ?_⟩
  · rw [sum_summands, hleft, hrounded]
    rfl
  · rw [sum_summands, hback]

end Sum

end Reshape.Filter
