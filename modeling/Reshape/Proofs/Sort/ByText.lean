import Reshape.Filter.Sort
import Reshape.Proofs.Sort.Merge
import Reshape.Proofs.Text.Units

/-!
# Sorting by text

Without a comparator, items are sorted stably by their text forms, in the order of code points. That
is the order of UTF-16 code units but for texts that differ first by a character from `U+E000` to
`U+FFFF` against one past them.
-/

namespace Reshape

variable {α : Type}

/-- Merge sort by a total preorder is stable. -/
theorem stablySorted_mergeSort {le : α → α → Bool} (htrans : ∀ a b c, le a b → le b c → le a c)
    (htotal : ∀ a b, le a b || le b a) (items : List α) :
    StablySorted (fun a b => le a b = false) items (items.mergeSort le) := by
  let placed := items.zipIdx.mergeSort (List.zipIdxLE le)
  have hperm : placed.Perm items.zipIdx := List.mergeSort_perm _ _
  have hplaces : placed.Pairwise fun a b => a.2 ≠ b.2 :=
    (hperm.pairwise_iff Ne.symm).mpr ((pairwise_zipIdx items 0).imp Nat.ne_of_lt)
  have hsorted : placed.Pairwise fun a b => List.zipIdxLE le a b = true :=
    List.pairwise_mergeSort (List.zipIdxLE_trans htrans) (List.zipIdxLE_total htotal) _
  refine ⟨placed, hperm, List.mergeSort_zipIdx, hplaces.imp₂ (fun a b hne hle => ?_) hsorted⟩
  unfold List.zipIdxLE at hle
  cases hforth : le a.1 b.1 with
  | false => simp [hforth] at hle
  | true =>
      refine ⟨fun hnot => Bool.noConfusion (hforth.symm.trans hnot), fun hback => ?_⟩
      rw [hforth, if_pos rfl, if_pos (eq_true_of_ne_false hback)] at hle
      exact Nat.lt_of_le_of_ne (of_decide_eq_true hle) hne

namespace Filter

theorem sortByText_eq (items : List Value) :
    sortByText items = items.mergeSort fun a b => a.text ≤ b.text := by
  unfold sortByText
  rw [List.map_mergeSort (s := fun a b => a.text ≤ b.text), List.map_map]
  · exact congrArg (fun items => List.mergeSort items _) (List.map_id items)
  · intro a ha b hb
    obtain ⟨item, -, rfl⟩ := List.mem_map.mp ha
    obtain ⟨other, -, rfl⟩ := List.mem_map.mp hb
    rfl

theorem stablySorted_sortByText (items : List Value) :
    StablySorted (fun a b => b.text < a.text) items (sortByText items) := by
  let le (a b : Value) : Bool := a.text ≤ b.text
  have htrans : ∀ a b c, le a b → le b c → le a c := by
    intro a b c hab hbc
    exact decide_eq_true (String.le_trans (of_decide_eq_true hab) (of_decide_eq_true hbc))
  have htotal : ∀ a b, le a b || le b a := by
    intro a b
    rw [Bool.or_eq_true, decide_eq_true_eq, decide_eq_true_eq]
    exact String.le_total a.text b.text
  have hgreater : (fun a b => le a b = false) = fun a b => b.text < a.text := by
    funext a b
    rw [decide_eq_false_iff_not, String.not_le]
  rw [sortByText_eq, ← hgreater]
  exact stablySorted_mergeSort htrans htotal items

/-- **Sorting by text.** Sorting without a comparator always succeeds. The result lists the items in
the order of their texts by code points, those of one text in the order they came in. Of two items
of the result the texts are in the order of code units too, unless they are swapped; without
surrogates none are. -/
theorem sort_by_text (items : List Value) (source : Value) :
    ∃ sorted, sort (.array items) source [] = .ok (.array sorted) ∧ sorted.Perm items ∧
      StablySorted (fun a b => b.text < a.text) items sorted ∧
      (sorted.Pairwise fun a b =>
        Text.units b.text.toList < Text.units a.text.toList ↔
          Text.Swapped a.text.toList b.text.toList) ∧
      ((∀ item ∈ items, ∀ c ∈ item.text.toList, c.toNat < 0x10000) →
        sorted.Pairwise fun a b => ¬ Text.units b.text.toList < Text.units a.text.toList) := by
  have hstable := stablySorted_sortByText items
  have hperm : (sortByText items).Perm items := by
    rw [sortByText_eq]
    exact List.mergeSort_perm _ _
  have hunits : (sortByText items).Pairwise fun a b =>
      Text.units b.text.toList < Text.units a.text.toList ↔
        Text.Swapped a.text.toList b.text.toList := by
    obtain ⟨placed, -, hplaced, hordered⟩ := hstable
    rw [← hplaced, List.pairwise_map]
    exact hordered.imp fun hordered => Text.units_lt_units_iff hordered.1
  refine ⟨sortByText items, rfl, hperm, hstable, hunits, fun hplane => ?_⟩
  refine hunits.imp_of_mem fun _ hb horder => ?_
  rw [horder]
  exact Text.not_swapped (hplane _ (hperm.mem_iff.mp hb))

/-- A ligature comes before a character that two surrogates are written for, whose code units are
the lesser. -/
theorem sort_by_text_swapped :
    sort (.array [.string "ﬀ", .string "😀"]) .null [] = .ok (.array [.string "ﬀ", .string "😀"]) ∧
      Text.units "😀".toList < Text.units "ﬀ".toList := by
  refine ⟨?_, by decide⟩
  have hsorted : [Value.string "ﬀ", .string "😀"].Pairwise
      fun a b => decide (a.text ≤ b.text) = true := by
    decide
  change Except.ok (Value.array (sortByText _)) = _
  rw [sortByText_eq, List.mergeSort_of_pairwise hsorted]

end Filter

end Reshape
