import Mathlib.Data.List.Basic

/-!
# Places in lists

What is said of a list by the places of its items: an order of them, where one is met first, and the
items of a range of places.
-/

namespace Reshape

variable {α β γ : Type} {items : List α} {item : α}

theorem pairwise_append_singleton {R : α → α → Prop} (hitems : items.Pairwise R)
    (hlast : ∀ earlier ∈ items, R earlier item) : (items ++ [item]).Pairwise R := by
  rw [List.pairwise_append]
  refine ⟨hitems, List.pairwise_singleton R item, fun earlier hmem last hlast' => ?_⟩
  rw [List.mem_singleton.mp hlast']
  exact hlast earlier hmem

theorem countP_eq_one_of_pairwise {test : α → Bool}
    (hapart : items.Pairwise fun first second => ¬ (test first = true ∧ test second = true))
    (hsome : ∃ item ∈ items, test item = true) : items.countP test = 1 := by
  induction items with
  | nil =>
      obtain ⟨item, hmem, -⟩ := hsome
      cases hmem
  | cons item rest ih =>
      obtain ⟨hitem, hrest⟩ := List.pairwise_cons.mp hapart
      by_cases htest : test item = true
      · have hnone : rest.countP test = 0 :=
          List.countP_eq_zero.mpr fun other hmem hother => hitem other hmem ⟨htest, hother⟩
        rw [List.countP_cons_of_pos htest, hnone]
      · rw [List.countP_cons_of_neg htest]
        obtain ⟨other, hmem, hother⟩ := hsome
        rcases List.mem_cons.mp hmem with rfl | hmem
        · exact absurd hother htest
        · exact ih hrest ⟨other, hmem, hother⟩

theorem pairwise_zipIdx (items : List α) (start : Nat) :
    (items.zipIdx start).Pairwise fun a b => a.2 < b.2 := by
  induction items generalizing start with
  | nil => exact .nil
  | cons item rest ih =>
      exact List.pairwise_cons.mpr ⟨fun _ hmem => List.le_snd_of_mem_zipIdx hmem, ih (start + 1)⟩

theorem map_some_take_drop (items : List α) {low high : Nat} (hhigh : high ≤ items.length) :
    ((items.drop low).take (high - low)).map some =
      (List.range' low (high - low)).map (items[·]?) := by
  apply List.ext_getElem
  · simp
    omega
  · intro i hi hrange
    rw [List.length_map, List.length_range'] at hrange
    have hbound : low + i < items.length := by omega
    simp [List.getElem?_eq_getElem hbound]

theorem map_getElem?_append {places : List Nat} (hplaces : ∀ place ∈ places, place < items.length)
    (rest : List α) : places.map ((items ++ rest)[·]?) = places.map (items[·]?) := by
  apply List.map_congr_left
  intro place hmem
  exact List.getElem?_append_left (hplaces place hmem)

/-- What stands at a place and nowhere before it is found there. -/
theorem idxOf_eq_of_notMem_take [BEq α] [LawfulBEq α] {place : Nat}
    (hitem : items[place]? = some item) (hnew : item ∉ items.take place) :
    items.idxOf item = place := by
  obtain ⟨hlt, heq⟩ := List.getElem?_eq_some_iff.mp hitem
  have hsplit : items = items.take place ++ item :: items.drop (place + 1) := by
    rw [← heq, List.getElem_cons_drop, List.take_append_drop]
  calc
    items.idxOf item = (items.take place ++ item :: items.drop (place + 1)).idxOf item :=
      congrArg (List.idxOf item) hsplit
    _ = place := by
      rw [List.idxOf_append_of_notMem hnew, List.idxOf_cons_self, List.length_take]
      omega

/-- Two lists whose images agree, and which are matched where the images of two items do. -/
theorem map_eq_of_map_eq_map {f : α → γ} {g : β → γ} {h : α → β} {others : List β}
    (hmaps : items.map f = others.map g)
    (hmatch : ∀ item ∈ items, ∀ other ∈ others, f item = g other → h item = other) :
    items.map h = others := by
  induction items generalizing others with
  | nil => exact (List.map_eq_nil_iff.mp hmaps.symm).symm
  | cons item rest ih =>
      obtain ⟨other, more, rfl, hfirst, hrest⟩ := List.map_eq_cons_iff.mp hmaps.symm
      rw [List.map_cons, hmatch item List.mem_cons_self other List.mem_cons_self hfirst.symm,
        ih hrest.symm fun item hitem other hother =>
          hmatch item (List.mem_cons_of_mem _ hitem) other (List.mem_cons_of_mem _ hother)]

end Reshape
