import Reshape.Proofs.Sort.Answer
import Reshape.Proofs.Sort.Inquiry
import Reshape.Proofs.Sort.Merge

/-!
# Sorting with a comparator

A sort that succeeds is the merge sort by the test that the left item is not greater. It succeeds if
no item fails to be compared with a later one, for two items are compared only when the first stands
in a left half and the second in the right half of the same part.
-/

namespace Reshape.Filter

def goesFirst (compare : Callback) (a b : Value) : Bool :=
  decide (compareWith compare a b ≠ .ok .gt)

section Compare

variable {compare : Callback} {a b : Value}

theorem goesFirst_eq_false_iff : goesFirst compare a b = false ↔ Greater compare a b := by
  simp [goesFirst, Greater]

theorem goesFirst_eq_true_of_ne {order : Ordering} (hcompare : compareWith compare a b = .ok order)
    (hne : order ≠ .gt) : goesFirst compare a b = true := by
  simpa [goesFirst, hcompare] using hne

end Compare

section Success

variable {compare : Callback}

theorem mergeWith_cons_cons (x y : Value) (xs ys : List Value) :
    mergeWith compare (x :: xs) (y :: ys) =
      compareWith compare x y >>= fun order =>
        if order = .gt then (mergeWith compare (x :: xs) ys).map (y :: ·)
        else (mergeWith compare xs (y :: ys)).map (x :: ·) := by
  rw [mergeWith]
  rfl

/-- A merge that succeeds is one by the test. -/
theorem merge_of_mergeWith_eq_ok {xs ys merged : List Value}
    (hmerge : mergeWith compare xs ys = .ok merged) : xs.merge ys (goesFirst compare) = merged := by
  induction xs, ys using mergeWith.induct generalizing merged with
  | case1 ys =>
      rw [mergeWith] at hmerge
      rw [List.nil_merge, Except.ok.inj hmerge]
  | case2 xs =>
      rw [mergeWith_nil_right] at hmerge
      rw [List.merge_right, Except.ok.inj hmerge]
  | case3 x xs y ys ihGreater ihNot =>
      rw [mergeWith_cons_cons] at hmerge
      obtain ⟨order, hcompare, hmerge⟩ := bind_eq_ok_iff.mp hmerge
      rw [List.cons_merge_cons]
      by_cases hgreater : order = .gt
      · rw [if_pos hgreater] at hmerge
        obtain ⟨rest, hrest, rfl⟩ := map_eq_ok_iff.mp hmerge
        have hfirst : goesFirst compare x y = false := by
          rw [goesFirst_eq_false_iff, Greater, hcompare, hgreater]
        rw [if_neg (Bool.eq_false_iff.mp hfirst), ihGreater hrest]
      · rw [if_neg hgreater] at hmerge
        obtain ⟨rest, hrest, rfl⟩ := map_eq_ok_iff.mp hmerge
        rw [if_pos (goesFirst_eq_true_of_ne hcompare hgreater), ihNot hrest]

theorem mergeHalves_of_sortHalves_eq_ok {depth : Nat} {items sorted : List Value}
    (hsort : sortHalves compare depth items = .ok sorted) :
    mergeHalves (goesFirst compare) depth items = sorted := by
  induction depth generalizing items sorted with
  | zero => exact Except.ok.inj hsort
  | succ depth ih =>
      rw [sortHalves] at hsort
      rw [mergeHalves]
      split
      · next hlength =>
          rw [if_pos hlength] at hsort
          exact Except.ok.inj hsort
      · next hlength =>
          rw [if_neg hlength] at hsort
          obtain ⟨left, hleft, hsort⟩ := bind_eq_ok_iff.mp hsort
          obtain ⟨right, hright, hmerge⟩ := bind_eq_ok_iff.mp hsort
          rw [ih hleft, ih hright]
          exact merge_of_mergeWith_eq_ok hmerge

theorem exists_mergeWith {xs ys : List Value}
    (hcompares : ∀ x ∈ xs, ∀ y ∈ ys, ∃ order, compareWith compare x y = .ok order) :
    ∃ merged, mergeWith compare xs ys = .ok merged := by
  induction xs, ys using mergeWith.induct with
  | case1 ys => exact ⟨ys, by rw [mergeWith]⟩
  | case2 xs => exact ⟨xs, mergeWith_nil_right compare xs⟩
  | case3 x xs y ys ihGreater ihNot =>
      obtain ⟨order, hcompare⟩ := hcompares x List.mem_cons_self y List.mem_cons_self
      rw [mergeWith_cons_cons, hcompare]
      change ∃ merged, (if order = .gt then _ else _) = Except.ok merged
      split
      · exact exists_map_eq_ok_iff.mpr (ihGreater fun a ha b hb =>
          hcompares a ha b (List.mem_cons_of_mem y hb))
      · exact exists_map_eq_ok_iff.mpr (ihNot fun a ha => hcompares a (List.mem_cons_of_mem x ha))

theorem exists_sortHalves {depth : Nat} {items : List Value}
    (hcompares : items.Pairwise fun a b => ∃ order, compareWith compare a b = .ok order) :
    ∃ sorted, sortHalves compare depth items = .ok sorted := by
  induction depth generalizing items with
  | zero => exact ⟨items, rfl⟩
  | succ depth ih =>
      rw [sortHalves]
      split
      · exact ⟨items, rfl⟩
      · rw [← List.take_append_drop (items.length / 2) items] at hcompares
        obtain ⟨htake, hdrop, hacross⟩ := List.pairwise_append.mp hcompares
        obtain ⟨left, hleft⟩ := ih htake
        obtain ⟨right, hright⟩ := ih hdrop
        have hmem : ∀ {part sorted : List Value}, sortHalves compare depth part = .ok sorted →
            ∀ item ∈ sorted, item ∈ part := by
          intro part sorted hsort item hitem
          rw [← mergeHalves_of_sortHalves_eq_ok hsort] at hitem
          exact mem_mergeHalves.mp hitem
        obtain ⟨merged, hmerge⟩ := exists_mergeWith fun a ha b hb =>
          hacross a (hmem hleft a ha) b (hmem hright b hb)
        exact ⟨merged, bind_eq_ok_iff.mpr ⟨left, hleft, bind_eq_ok_iff.mpr ⟨right, hright, hmerge⟩⟩⟩

theorem stablySorted_of_sortWith_eq_ok {items sorted : List Value}
    (hsort : sortWith compare items = .ok sorted)
    [horder : IsStrictWeakOrder {item // item ∈ items} fun a b => Greater compare a.1 b.1] :
    StablySorted (Greater compare) items sorted := by
  have hgreater : (fun a b => goesFirst compare a b = false) = Greater compare := by
    funext a b
    exact propext goesFirst_eq_false_iff
  rw [← mergeHalves_of_sortHalves_eq_ok hsort, ← hgreater]
  simp only [← goesFirst_eq_false_iff] at horder
  exact stablySorted_mergeHalves (Nat.le_succ _)

end Success

theorem sort_array_callback (compare : Callback) (items : List Value) (source : Value) :
    sort (.array items) source [.callback compare] = (sortWith compare items).map .array :=
  rfl

/-- **Sorting with a comparator.** An item is greater where the comparator answers so. A result lists
the items, whatever the comparator does. There is one if the comparator answers on every pair of an
earlier and a later item. Where being greater is a strict weak order of the items, the result is in
that order and stable. The sort makes the comparisons of one inquiry, and a failure is that of the
first of them that fails. -/
theorem sort_callback (compare : Callback) (items : List Value) (source : Value) :
    (∀ a b, Greater compare a b ↔
      ∃ answer, compare [a, b] = .ok answer ∧ SaysGreater answer) ∧
    (∀ result, sort (.array items) source [.callback compare] = .ok result →
      ∃ sorted, result = .array sorted ∧ sorted.Perm items) ∧
    ((items.Pairwise fun a b => ∃ answer, compare [a, b] = .ok answer ∧ IsAnswer answer) →
      ∃ sorted, sort (.array items) source [.callback compare] = .ok (.array sorted)) ∧
    (∀ sorted, sort (.array items) source [.callback compare] = .ok (.array sorted) →
      IsStrictWeakOrder {item // item ∈ items} (fun a b => Greater compare a.1 b.1) →
      StablySorted (Greater compare) items sorted) ∧
    sort (.array items) source [.callback compare] =
      ((Inquiry.sorting items.length items).run compare).map .array ∧
    ∀ error, sort (.array items) source [.callback compare] = .error error ↔
      ∃ before left right,
        (Inquiry.sorting items.length items).made compare = before ++ [(left, right)] ∧
        (∀ pair ∈ before, ∃ order, compareWith compare pair.1 pair.2 = .ok order) ∧
        compareWith compare left right = .error error := by
  have hrun : (Inquiry.sorting items.length items).run compare = sortWith compare items :=
    Inquiry.run_sorting items.length items
  simp only [sort_array_callback]
  refine ⟨fun a b => greater_iff, fun result hsort => ?_, fun hanswers => ?_,
    fun sorted hsort horder => ?_, ?_, fun error => ?_⟩
  · obtain ⟨sorted, hsorted, rfl⟩ := map_eq_ok_iff.mp hsort
    refine ⟨sorted, rfl, ?_⟩
    rw [← mergeHalves_of_sortHalves_eq_ok hsorted]
    exact mergeHalves_perm _ _ items
  · obtain ⟨sorted, hsort⟩ : ∃ sorted, sortWith compare items = .ok sorted :=
      exists_sortHalves (hanswers.imp fun ⟨_, hcompare, hanswer⟩ =>
        exists_compareWith hcompare hanswer)
    exact ⟨sorted, map_eq_ok_iff.mpr ⟨sorted, hsort, rfl⟩⟩
  · obtain ⟨_, hsort, ⟨⟩⟩ := map_eq_ok_iff.mp hsort
    exact stablySorted_of_sortWith_eq_ok hsort
  · rw [hrun]
  · rw [map_eq_error_iff, ← hrun, Inquiry.run_eq_error_iff]

/-- Texts sorted by a flag that compares their lengths, those of one length left in the order they
came in. -/
theorem sort_callback_by_length :
    let compare : Callback := fun args =>
      .ok (.bool ((args.getD 1 .null).text.length < (args.getD 0 .null).text.length))
    let items : List Value := ["two", "one", "three", "ten"].map Value.string
    let sorted : List Value := ["two", "one", "ten", "three"].map Value.string
    sort (.array items) .null [.callback compare] = .ok (.array sorted) ∧ sorted.Perm items ∧
      Greater compare (.string "three") (.string "ten") ∧
      StablySorted (Greater compare) items sorted := by
  intro compare items sorted
  have hanswers : items.Pairwise fun a b => ∃ answer, compare [a, b] = .ok answer ∧
      IsAnswer answer :=
    List.pairwise_of_forall fun _ _ => ⟨_, rfl, .bool _⟩
  have hlonger : ∀ a b, Greater compare a b ↔ b.text.length < a.text.length := by
    intro a b
    have hcompare : compareWith compare a b =
        .ok (if decide (b.text.length < a.text.length) then .gt else .eq) := rfl
    rw [Greater, hcompare]
    by_cases hlonger : b.text.length < a.text.length
    · simp [hlonger]
    · simp [hlonger]
  have horder : IsStrictWeakOrder {item // item ∈ items} fun a b => Greater compare a.1 b.1 := by
    refine { irrefl := fun a => ?_, trans := fun a b c => ?_, incomp_trans := fun a b c => ?_ } <;>
      simp only [hlonger] <;> omega
  have hvalue : sort (.array items) .null [.callback compare] = .ok (.array sorted) := by
    simp only [compare, items, sorted]
    cbv
  obtain ⟨hgreater, hperm, hsucceeds, hstable, -⟩ := sort_callback compare items .null
  obtain ⟨found, hsort⟩ := hsucceeds hanswers
  obtain rfl : found = sorted := Value.array.inj (Except.ok.inj (hsort.symm.trans hvalue))
  obtain ⟨_, ⟨⟩, hlists⟩ := hperm _ hsort
  exact ⟨hsort, hlists, (hgreater _ _).mpr ⟨_, rfl, .flag⟩, hstable _ hsort horder⟩

end Reshape.Filter
