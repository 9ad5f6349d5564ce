import Mathlib.Order.Defs.Unbundled
import Reshape.Proofs.List

/-!
# Merging halves

Merge sort by a test that never fails. Whatever the test says, the result lists the items; where
the items are weakly ordered by it, the result is in that order and stable. For stability the items
carry their positions, which the test does not see, so that order and stability are one relation on
placed items that every merge keeps.
-/

namespace Reshape

variable {α β : Type}

/-- Merge sort that halves a list as often as `depth` allows; an item of the left half goes before
one of the right where the test holds. -/
def mergeHalves (before : α → α → Bool) : Nat → List α → List α
  | 0, items => items
  | depth + 1, items =>
    if items.length ≤ 1 then items
    else
      (mergeHalves before depth (items.take (items.length / 2))).merge
        (mergeHalves before depth (items.drop (items.length / 2))) before

/-- The items by their positions, none greater than a later one, and of two that are alike the one
that came first still first. -/
def StablySorted (greater : α → α → Prop) (items sorted : List α) : Prop :=
  ∃ placed : List (α × Nat), placed.Perm items.zipIdx ∧ placed.map Prod.fst = sorted ∧
    placed.Pairwise fun a b => ¬ greater a.1 b.1 ∧ (¬ greater b.1 a.1 → a.2 < b.2)

section Halves

variable {before : α → α → Bool} {depth : Nat} {items : List α}

theorem mergeHalves_perm (before : α → α → Bool) (depth : Nat) (items : List α) :
    (mergeHalves before depth items).Perm items := by
  induction depth generalizing items with
  | zero => exact .refl items
  | succ depth ih =>
      rw [mergeHalves]
      split
      · exact .refl items
      · have hhalves := (ih (items.take (items.length / 2))).append
          (ih (items.drop (items.length / 2)))
        rw [List.take_append_drop] at hhalves
        exact (List.merge_perm_append before).trans hhalves

theorem mem_mergeHalves {item : α} : item ∈ mergeHalves before depth items ↔ item ∈ items :=
  (mergeHalves_perm before depth items).mem_iff

/-- Sorting commutes with a map that the test does not see. -/
theorem map_mergeHalves (f : β → α) (before : α → α → Bool) (depth : Nat) (items : List β) :
    (mergeHalves (fun a b => before (f a) (f b)) depth items).map f =
      mergeHalves before depth (items.map f) := by
  induction depth generalizing items with
  | zero => rfl
  | succ depth ih =>
      rw [mergeHalves, mergeHalves, List.length_map]
      split
      · rfl
      · rw [List.map_merge (s := before) fun _ _ _ _ => rfl, ih, ih, List.map_take, List.map_drop]

end Halves

section Pairwise

variable {before : α → α → Bool} {R : α → α → Prop}

/-- A merge keeps a transitive relation that the test decides between the two lists. -/
theorem pairwise_merge (htrans : ∀ a b c, R a b → R b c → R a c) {xs ys : List α}
    (hxs : xs.Pairwise R) (hys : ys.Pairwise R)
    (hdecides : ∀ x ∈ xs, ∀ y ∈ ys, if before x y then R x y else R y x) :
    (xs.merge ys before).Pairwise R := by
  induction xs generalizing ys with
  | nil => rwa [List.nil_merge]
  | cons x xs ihx =>
      induction ys with
      | nil => rwa [List.merge_right]
      | cons y ys ihy =>
          have hfirst := hdecides x List.mem_cons_self y List.mem_cons_self
          obtain ⟨hx, hxs'⟩ := List.pairwise_cons.mp hxs
          obtain ⟨hy, hys'⟩ := List.pairwise_cons.mp hys
          rw [List.cons_merge_cons]
          split
          · next hbefore =>
              rw [if_pos hbefore] at hfirst
              refine List.pairwise_cons.mpr ⟨fun z hz => ?_, ihx hxs' hys fun a ha =>
                hdecides a (List.mem_cons_of_mem x ha)⟩
              rcases List.mem_merge.mp hz with hz | hz
              · exact hx z hz
              · rcases List.mem_cons.mp hz with rfl | hz
                · exact hfirst
                · exact htrans x y z hfirst (hy z hz)
          · next hbefore =>
              rw [if_neg hbefore] at hfirst
              refine List.pairwise_cons.mpr ⟨fun z hz => ?_, ihy hys' fun a ha b hb =>
                hdecides a ha b (List.mem_cons_of_mem y hb)⟩
              rcases List.mem_merge.mp hz with hz | hz
              · rcases List.mem_cons.mp hz with rfl | hz
                · exact hfirst
                · exact htrans y x z hfirst (hx z hz)
              · exact hy z hz

/-- Sorting brings a transitive relation about that the test decides between earlier and later
items. -/
theorem pairwise_mergeHalves (htrans : ∀ a b c, R a b → R b c → R a c) {depth : Nat}
    {items : List α} (hdepth : items.length ≤ depth + 1)
    (hdecides : items.Pairwise fun a b => if before a b then R a b else R b a) :
    (mergeHalves before depth items).Pairwise R := by
  have hshort : ∀ {few : List α}, few.length ≤ 1 → few.Pairwise R := by
    intro few hfew
    match few, hfew with
    | [], _ => exact .nil
    | [item], _ => exact List.pairwise_singleton R item
  induction depth generalizing items with
  | zero => exact hshort hdepth
  | succ depth ih =>
      rw [mergeHalves]
      split
      · next hlength => exact hshort hlength
      · next hlength =>
          rw [← List.take_append_drop (items.length / 2) items] at hdecides
          obtain ⟨hleft, hright, hacross⟩ := List.pairwise_append.mp hdecides
          have htake : (items.take (items.length / 2)).length ≤ depth + 1 := by
            rw [List.length_take]
            omega
          have hdrop : (items.drop (items.length / 2)).length ≤ depth + 1 := by
            rw [List.length_drop]
            omega
          exact pairwise_merge htrans (ih htake hleft) (ih hdrop hright)
            fun a ha b hb => hacross a (mem_mergeHalves.mp ha) b (mem_mergeHalves.mp hb)

end Pairwise

/-! ### Stability -/

section Stable

variable {greater : α → α → Prop} [IsStrictWeakOrder α greater]

/-- In a strict weak order, not being greater is transitive. -/
theorem not_greater_trans {a b c : α} (hab : ¬ greater a b) (hbc : ¬ greater b c) :
    ¬ greater a c := by
  intro hac
  by_cases hba : greater b a
  · exact hbc (trans_of greater hba hac)
  by_cases hcb : greater c b
  · exact hab (trans_of greater hac hcb)
  · exact (IsStrictWeakOrder.incomp_trans a b c ⟨hab, hba⟩ ⟨hbc, hcb⟩).1 hac

variable (greater) in
/-- The relation of placed items that a stable sort brings about is transitive. -/
theorem placed_trans (a b c : α × Nat)
    (hab : ¬ greater a.1 b.1 ∧ (¬ greater b.1 a.1 → a.2 < b.2))
    (hbc : ¬ greater b.1 c.1 ∧ (¬ greater c.1 b.1 → b.2 < c.2)) :
    ¬ greater a.1 c.1 ∧ (¬ greater c.1 a.1 → a.2 < c.2) := by
  refine ⟨not_greater_trans hab.1 hbc.1, fun hca => ?_⟩
  have hba : a.2 < b.2 := hab.2 (not_greater_trans hbc.1 hca)
  have hcb : b.2 < c.2 := hbc.2 (not_greater_trans hca hab.1)
  exact Nat.lt_trans hba hcb

end Stable

/-- Merging halves sorts stably where the items that the test refuses are a strict weak order. -/
theorem stablySorted_mergeHalves {before : α → α → Bool} {items : List α}
    [horder : IsStrictWeakOrder {item // item ∈ items} fun a b => before a.1 b.1 = false]
    {depth : Nat} (hdepth : items.length ≤ depth + 1) :
    StablySorted (fun a b => before a b = false) items (mergeHalves before depth items) := by
  -- the order is one of the items alone, so that they are sorted as members of the list
  let places := items.attach.zipIdx
  let place : {item // item ∈ items} × Nat → α × Nat := Prod.map Subtype.val id
  let sorted := mergeHalves (fun a b => before (place a).1 (place b).1) depth places
  have hplaces : places.map place = items.zipIdx :=
    calc places.map place = (items.attach.map Subtype.val).zipIdx := List.zipIdx_map.symm
      _ = items.zipIdx := by rw [List.attach_map_subtype_val]
  refine ⟨sorted.map place, ?_, ?_, ?_⟩
  · rw [← hplaces]
    exact (mergeHalves_perm _ depth places).map place
  · rw [List.map_map]
    calc sorted.map (Prod.fst ∘ place)
        = mergeHalves before depth (places.map (Prod.fst ∘ place)) :=
          map_mergeHalves (Prod.fst ∘ place) before depth places
      _ = mergeHalves before depth items := by
          rw [← List.map_map, hplaces, List.zipIdx_map_fst]
  · rw [List.pairwise_map]
    have hlength : places.length ≤ depth + 1 := by
      rwa [List.length_zipIdx, List.length_attach]
    refine pairwise_mergeHalves
      (placed_trans fun a b : {item // item ∈ items} => before a.1 b.1 = false)
      hlength ((pairwise_zipIdx items.attach 0).imp fun {a b} hlt => ?_)
    cases hbefore : before (place a).1 (place b).1 with
    | true => exact ⟨fun hnot => Bool.noConfusion (hbefore.symm.trans hnot), fun _ => hlt⟩
    | false =>
        exact ⟨asymm_of (fun a b : {item // item ∈ items} => before a.1 b.1 = false) hbefore,
          fun hnot => absurd hbefore hnot⟩

end Reshape
