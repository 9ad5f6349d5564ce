import Reshape.Proofs.Sort.ByText
import Reshape.Proofs.Sort.Comparator

/-!
# The two ways to sort by text

A stable sort leaves nothing open: items in order, and those that are alike in the order they came
in, are one list. Sorting without a comparator is therefore sorting with a comparator of texts,
although the one sorts keys that are made once, and the other merges halves and asks at each step.
-/

namespace Reshape

variable {α : Type} {greater other : α → α → Prop} {items sorted again : List α}

/-- There is one stable order of items. -/
theorem StablySorted.unique (hsorted : StablySorted greater items sorted)
    (hagain : StablySorted greater items again) : sorted = again := by
  obtain ⟨placed, hperm, rfl, hplaced⟩ := hsorted
  obtain ⟨others, hothers, rfl, hordered⟩ := hagain
  have hsame : placed = others := by
    refine List.Perm.eq_of_pairwise (fun a b _ _ hab hba => ?_) hplaced hordered
      (hperm.trans hothers.symm)
    -- two places that come both before and behind each other
    have hforth : a.2 < b.2 := hab.2 hba.1
    have hback : b.2 < a.2 := hba.2 hab.1
    exact absurd hback (Nat.lt_asymm hforth)
  rw [hsame]

/-- Only what is said of the items themselves counts. -/
theorem StablySorted.congr (hgreater : ∀ a ∈ items, ∀ b ∈ items, (greater a b ↔ other a b))
    (hsorted : StablySorted greater items sorted) : StablySorted other items sorted := by
  obtain ⟨placed, hperm, hmap, hplaced⟩ := hsorted
  refine ⟨placed, hperm, hmap, hplaced.imp_of_mem fun {a b} ha hb hordered => ?_⟩
  have hmem : ∀ place ∈ placed, place.1 ∈ items := by
    intro place hplace
    exact List.fst_mem_of_mem_zipIdx (hperm.mem_iff.mp hplace)
  rwa [← hgreater a.1 (hmem a ha) b.1 (hmem b hb), ← hgreater b.1 (hmem b hb) a.1 (hmem a ha)]

namespace Filter

/-- How the texts of two values compare, by code points, told by minus one, zero or one. -/
def textOrder (a b : Value) : Int :=
  if a.text < b.text then -1 else if a.text = b.text then 0 else 1

/-- A comparator of the texts of some items. -/
def ComparesTexts (compare : Callback) (items : List Value) : Prop :=
  ∀ a ∈ items, ∀ b ∈ items, compare [a, b] = .ok (.integer (textOrder a b))

section

variable {compare : Callback} {items : List Value} {a b : Value}

theorem compareWith_of_comparesTexts (hcompare : ComparesTexts compare items) (ha : a ∈ items)
    (hb : b ∈ items) : compareWith compare a b = orderingOf (.integer (textOrder a b)) :=
  bind_eq_ok_iff.mpr ⟨_, hcompare a ha b hb, rfl⟩

theorem greater_iff_of_comparesTexts (hcompare : ComparesTexts compare items) (ha : a ∈ items)
    (hb : b ∈ items) : Greater compare a b ↔ b.text < a.text := by
  rw [Greater, compareWith_of_comparesTexts hcompare ha hb, textOrder]
  by_cases hless : a.text < b.text
  · rw [if_pos hless]
    refine iff_of_false (fun hgreater => ?_) (String.lt_asymm hless)
    cases hgreater
  by_cases hsame : a.text = b.text
  · rw [if_neg hless, if_pos hsame]
    refine iff_of_false (fun hgreater => ?_) (hsame ▸ String.lt_irrefl a.text)
    cases hgreater
  · rw [if_neg hless, if_neg hsame]
    refine iff_of_true rfl (String.not_le.mp fun hle => hsame ?_)
    exact String.le_antisymm hle (String.not_lt.mp hless)

theorem isStrictWeakOrder_of_comparesTexts (hcompare : ComparesTexts compare items) :
    IsStrictWeakOrder {item // item ∈ items} fun a b => Greater compare a.1 b.1 := by
  have hgreater : ∀ a b : {item // item ∈ items},
      Greater compare a.1 b.1 ↔ b.1.text < a.1.text :=
    fun a b => greater_iff_of_comparesTexts hcompare a.2 b.2
  refine { irrefl := fun a => ?_, trans := fun a b c => ?_, incomp_trans := fun a b c => ?_ } <;>
    simp only [hgreater, String.not_lt]
  · exact String.le_refl a.1.text
  · intro hba hcb
    exact String.lt_trans hcb hba
  · rintro ⟨hab, hba⟩ ⟨hbc, hcb⟩
    exact ⟨String.le_trans hab hbc, String.le_trans hcb hba⟩

theorem exists_sortWith_of_comparesTexts (hcompare : ComparesTexts compare items) :
    ∃ sorted, sortWith compare items = .ok sorted := by
  refine exists_sortHalves (List.pairwise_of_forall_mem_list fun a ha b hb => ?_)
  exact exists_compareWith (hcompare a ha b hb) (.number _)

theorem sortWith_of_comparesTexts (hcompare : ComparesTexts compare items) :
    sortWith compare items = .ok (sortByText items) := by
  have horder := isStrictWeakOrder_of_comparesTexts hcompare
  obtain ⟨sorted, hsort⟩ := exists_sortWith_of_comparesTexts hcompare
  have hstable : StablySorted (fun a b => b.text < a.text) items sorted :=
    (stablySorted_of_sortWith_eq_ok hsort).congr fun a ha b hb =>
      greater_iff_of_comparesTexts hcompare ha hb
  rw [hsort, hstable.unique (stablySorted_sortByText items)]

end

/-- **Both ways to sort by text agree.** A comparator that tells how the texts of two items compare
sorts an array as no comparator does: the items are in the order of their texts, and those with one
text in the order they came in. -/
theorem sort_comparesTexts (compare : Callback) (items : List Value) (source : Value)
    (more : List Arg) (hcompare : ComparesTexts compare items) :
    sort (.array items) source (.callback compare :: more) = sort (.array items) source [] ∧
      sort (.array items) source (.value .null :: more) = sort (.array items) source [] ∧
      ∃ sorted, sort (.array items) source [] = .ok (.array sorted) ∧
        StablySorted (fun a b => b.text < a.text) items sorted := by
  refine ⟨?_, rfl, sortByText items, rfl, stablySorted_sortByText items⟩
  change (sortWith compare items).map Value.array = _
  rw [sortWith_of_comparesTexts hcompare]
  rfl

/-- Four values with one text stay in their order. -/
theorem sort_comparesTexts_ones :
    let compare : Callback := fun args =>
      .ok (.integer (textOrder (args.getD 0 .null) (args.getD 1 .null)))
    let one : Double := ⟨false, 2 ^ 52, -52, by decide⟩
    let ones : List Value :=
      [.string "1", .array [.integer 1], .number (.double one), .integer 1]
    (∀ item ∈ ones, item.text = "1") ∧ ComparesTexts compare (ones ++ [.integer 0]) ∧
      sort (.array (ones ++ [.integer 0])) .null [.callback compare] =
        sort (.array (ones ++ [.integer 0])) .null [] := by
  intro compare one ones
  have htexts : ∀ item ∈ ones, item.text = "1" := by
    decide
  have hcompare : ComparesTexts compare (ones ++ [.integer 0]) := fun _ _ _ _ => rfl
  exact ⟨htexts, hcompare, (sort_comparesTexts compare _ .null [] hcompare).1⟩

end Filter

end Reshape
