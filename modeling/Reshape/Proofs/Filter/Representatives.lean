import Reshape.Filter.Collection
import Reshape.Proofs.List
import Reshape.Proofs.Value.Equality

/-!
# The first of each class

An item is dropped when a kept item equals it loosely. The kept items stand for all that came before:
whatever equals an earlier item equals the one that stands for it, because loose equality is
transitive, so that an item is kept exactly when it equals nothing at all before it.
-/

namespace Reshape

namespace Filter

open Value

/-- What stands at a place equals loosely nothing that stands before it. -/
def IsFirst (items : List Value) (place : Nat) : Prop :=
  ∃ item, items[place]? = some item ∧
    ∀ earlier ∈ items.take place, earlier.looselyEqual item = false

/-- The kept items are those at the places of first ones, in order. -/
def ListsFirsts (items kept : List Value) : Prop :=
  ∃ places : List Nat, places.Pairwise (· < ·) ∧ (∀ place, place ∈ places ↔ IsFirst items place) ∧
    kept.map some = places.map (items[·]?)

/-- Of the items seen those kept: the first ones, apart from each other, and one for each that was
seen. -/
structure Represent (seen kept : List Value) : Prop where
  firsts : ListsFirsts seen kept
  sublist : kept.Sublist seen
  apart : kept.Pairwise fun first second => first.looselyEqual second = false
  covers : ∀ item ∈ seen, ∃ first ∈ kept, first.looselyEqual item = true

section Places

variable {items kept : List Value} {item : Value} {place : Nat}

theorem IsFirst.lt_length (hfirst : IsFirst items place) : place < items.length := by
  obtain ⟨item, hitem, -⟩ := hfirst
  exact (List.getElem?_eq_some_iff.mp hitem).1

theorem isFirst_append_of_lt (hlt : place < items.length) :
    IsFirst (items ++ [item]) place ↔ IsFirst items place := by
  rw [IsFirst, IsFirst, List.getElem?_append_left hlt, List.take_append_of_le_length (Nat.le_of_lt hlt)]

theorem isFirst_append_length :
    IsFirst (items ++ [item]) items.length ↔
      ∀ earlier ∈ items, earlier.looselyEqual item = false := by
  rw [IsFirst, List.getElem?_concat_length, List.take_left]
  simp

theorem isFirst_append_iff :
    IsFirst (items ++ [item]) place ↔
      IsFirst items place ∨
        place = items.length ∧ ∀ earlier ∈ items, earlier.looselyEqual item = false := by
  constructor
  · intro hfirst
    have hle : place ≤ items.length := by
      have hlt := hfirst.lt_length
      rw [List.length_append, List.length_singleton] at hlt
      exact Nat.le_of_lt_succ hlt
    rcases Nat.lt_or_eq_of_le hle with hlt | rfl
    · exact Or.inl ((isFirst_append_of_lt hlt).mp hfirst)
    · exact Or.inr ⟨rfl, isFirst_append_length.mp hfirst⟩
  · rintro (hfirst | ⟨rfl, hapart⟩)
    · exact (isFirst_append_of_lt hfirst.lt_length).mpr hfirst
    · exact isFirst_append_length.mpr hapart

theorem ListsFirsts.skip (hfirsts : ListsFirsts items kept)
    (hequal : ∃ earlier ∈ items, earlier.looselyEqual item = true) :
    ListsFirsts (items ++ [item]) kept := by
  obtain ⟨places, hsorted, hplaces, hkept⟩ := hfirsts
  refine ⟨places, hsorted, fun place => ?_, ?_⟩
  · rw [hplaces, isFirst_append_iff]
    constructor
    · exact Or.inl
    · rintro (hfirst | ⟨-, hapart⟩)
      · exact hfirst
      · obtain ⟨earlier, hmem, heq⟩ := hequal
        exact absurd (hapart earlier hmem) (by simp [heq])
  · have hlt : ∀ place ∈ places, place < items.length := fun place hmem =>
      ((hplaces place).mp hmem).lt_length
    rw [hkept, map_getElem?_append hlt [item]]

theorem ListsFirsts.keep (hfirsts : ListsFirsts items kept)
    (hapart : ∀ earlier ∈ items, earlier.looselyEqual item = false) :
    ListsFirsts (items ++ [item]) (kept ++ [item]) := by
  obtain ⟨places, hsorted, hplaces, hkept⟩ := hfirsts
  have hlt : ∀ place ∈ places, place < items.length := fun place hmem =>
    ((hplaces place).mp hmem).lt_length
  refine ⟨places ++ [items.length], ?_, fun place => ?_, ?_⟩
  · exact pairwise_append_singleton hsorted hlt
  · rw [List.mem_append, List.mem_singleton, hplaces, isFirst_append_iff, and_iff_left hapart]
  · rw [List.map_append, List.map_append, hkept, map_getElem?_append hlt [item],
      List.map_singleton, List.map_singleton, List.getElem?_concat_length]

end Places

namespace Represent

variable {seen kept : List Value} {item : Value}

theorem nil : Represent [] [] :=
  ⟨⟨[], .nil, by simp [IsFirst], rfl⟩, .slnil, .nil, nofun⟩

/-- What equals an earlier item equals the one kept for it. -/
theorem any_iff (hseen : Represent seen kept) :
    kept.any (·.looselyEqual item) = true ↔ ∃ earlier ∈ seen, earlier.looselyEqual item = true := by
  rw [List.any_eq_true]
  constructor
  · rintro ⟨first, hmem, hequal⟩
    exact ⟨first, hseen.sublist.subset hmem, hequal⟩
  · rintro ⟨earlier, hmem, hequal⟩
    obtain ⟨first, hfirst, hstands⟩ := hseen.covers earlier hmem
    exact ⟨first, hfirst, looselyEqual_trans hstands hequal⟩

theorem skip (hseen : Represent seen kept)
    (hequal : ∃ earlier ∈ seen, earlier.looselyEqual item = true) :
    Represent (seen ++ [item]) kept where
  firsts := hseen.firsts.skip hequal
  sublist := hseen.sublist.trans (List.sublist_append_left seen [item])
  apart := hseen.apart
  covers := by
    rw [List.forall_mem_append, List.forall_mem_singleton]
    exact ⟨hseen.covers, List.any_eq_true.mp (hseen.any_iff.mpr hequal)⟩

theorem keep (hseen : Represent seen kept) (hself : item.looselyEqual item = true)
    (hapart : ∀ earlier ∈ seen, earlier.looselyEqual item = false) :
    Represent (seen ++ [item]) (kept ++ [item]) where
  firsts := hseen.firsts.keep hapart
  sublist := hseen.sublist.append (List.Sublist.refl [item])
  apart := pairwise_append_singleton hseen.apart fun first hfirst =>
    hapart first (hseen.sublist.subset hfirst)
  covers := by
    rw [List.forall_mem_append, List.forall_mem_singleton]
    constructor
    · intro earlier hmem
      obtain ⟨first, hfirst, hequal⟩ := hseen.covers earlier hmem
      exact ⟨first, List.mem_append_left _ hfirst, hequal⟩
    · exact ⟨item, List.mem_append_right _ List.mem_cons_self, hself⟩

/-- One step of the loop: the items kept represent one item more. -/
theorem step (hseen : Represent seen kept) (hself : item.looselyEqual item = true) :
    Represent (seen ++ [item])
      (if kept.any (·.looselyEqual item) then kept else kept ++ [item]) := by
  by_cases hequal : ∃ earlier ∈ seen, earlier.looselyEqual item = true
  · rw [if_pos (hseen.any_iff.mpr hequal)]
    exact hseen.skip hequal
  · rw [if_neg (mt hseen.any_iff.mp hequal)]
    refine hseen.keep hself fun earlier hmem => ?_
    rw [← Bool.not_eq_true]
    exact fun heq => hequal ⟨earlier, hmem, heq⟩

theorem keepFirst {rest : List Value} (hseen : Represent seen kept)
    (hself : ∀ item ∈ rest, item.looselyEqual item = true) :
    Represent (seen ++ rest) (Filter.keepFirst kept rest) := by
  induction rest generalizing seen kept with
  | nil => rwa [List.append_nil]
  | cons item rest ih =>
      rw [List.forall_mem_cons] at hself
      have hstep := ih (hseen.step hself.1) hself.2
      rw [List.append_assoc, List.singleton_append] at hstep
      cases hany : kept.any (·.looselyEqual item) <;>
        simpa [Filter.keepFirst, hany] using hstep

/-- Two kept items that equal one item would equal each other. -/
theorem countP_eq_one (hseen : Represent seen kept) (hkeys : ∀ item ∈ seen, item.HasDistinctKeys)
    (hmem : item ∈ seen) : kept.countP (·.looselyEqual item) = 1 := by
  apply countP_eq_one_of_pairwise
  · refine hseen.apart.imp_of_mem fun {first second} _ hsecond hapart => ?_
    rintro ⟨hfirst, hequal⟩
    have hback := looselyEqual_symm (hkeys second (hseen.sublist.subset hsecond)) (hkeys item hmem)
      hequal
    rw [looselyEqual_trans hfirst hback] at hapart
    cases hapart
  · exact hseen.covers item hmem

end Represent

theorem keepFirst_of_apart {kept rest : List Value}
    (hapart : (kept ++ rest).Pairwise fun first second => first.looselyEqual second = false) :
    keepFirst kept rest = kept ++ rest := by
  induction rest generalizing kept with
  | nil => rw [keepFirst, List.append_nil]
  | cons item rest ih =>
      rw [List.append_cons] at hapart ⊢
      have hbefore := (List.pairwise_append.mp (List.pairwise_append.mp hapart).1).2.2
      have hnew : ¬ kept.any (·.looselyEqual item) = true := by
        rw [List.any_eq_true]
        rintro ⟨first, hmem, hequal⟩
        rw [hbefore first hmem item List.mem_cons_self] at hequal
        cases hequal
      rw [keepFirst, if_neg hnew]
      exact ih hapart

theorem hasDistinctKeys_of_mem_elements {value element : Value} (hkeys : value.HasDistinctKeys)
    (hmem : element ∈ value.elements) : element.HasDistinctKeys := by
  cases value with
  | array items => exact hkeys.item hmem
  | string text =>
      obtain ⟨c, -, rfl⟩ := List.mem_map.mp hmem
      exact fun fields hnode => by simp at hnode
  | _ => cases hmem

/-- **Of each class of equals the first is kept.** Loose equality is an equivalence on values whose
objects have no key twice. What is kept of a collection is each element that equals none before it, in
order: one for every element, and all of it again when it is the input. -/
theorem unique_first_of_class (input source : Value) (args : List Arg)
    (hkeys : input.HasDistinctKeys) :
    (Equivalence fun a b : {value : Value // value.HasDistinctKeys} =>
      a.1.looselyEqual b.1 = true) ∧
    ∃ kept, unique input source args = .ok (.array kept) ∧ ListsFirsts input.elements kept ∧
      kept.Sublist input.elements ∧
      (kept.Pairwise fun first second => first.looselyEqual second = false) ∧
      (∀ item ∈ input.elements, kept.countP (·.looselyEqual item) = 1) ∧
      unique (.array kept) source args = .ok (.array kept) := by
  have helements : ∀ item ∈ input.elements, item.HasDistinctKeys := fun item hmem =>
    hasDistinctKeys_of_mem_elements hkeys hmem
  have hkept := Represent.nil.keepFirst fun item hmem => looselyEqual_refl (helements item hmem)
  rw [List.nil_append] at hkept
  refine ⟨looselyEqual_equivalence, keepFirst [] input.elements, rfl, hkept.firsts, hkept.sublist,
    hkept.apart, fun item hmem => hkept.countP_eq_one helements hmem, ?_⟩
  rw [unique, elements, keepFirst_of_apart hkept.apart, List.nil_append]

/-- Numbers are one class in both forms, and so are objects with their keys in either order; inside
an array the forms of a number count. -/
theorem unique_first_of_class_forms :
    let double : Value := .number (.double ⟨false, 1 <<< 52, -52, by decide⟩)
    let first : Value := .object [("a", .integer 1), ("b", .null)]
    let second : Value := .object [("b", .null), ("a", .integer 1)]
    let items := [.integer 1, first, .array [.integer 1], double, .array [double], second]
    let firsts := [.integer 1, first, .array [.integer 1], .array [double]]
    (Value.array items).HasDistinctKeys ∧ unique (.array items) .null [] = .ok (.array firsts) ∧
      ListsFirsts items firsts ∧ (∀ item ∈ items, firsts.countP (·.looselyEqual item) = 1) ∧
      unique (.array firsts) .null [] = .ok (.array firsts) := by
  intro double first second items firsts
  have hkeys : (Value.array items).HasDistinctKeys := by
    simp [items, first, second, double, HasDistinctKeys, Fields.keys, integer]
  have hunique : unique (.array items) .null [] = .ok (.array firsts) := rfl
  obtain ⟨-, kept, hkept, hlists, -, -, hone, hagain⟩ :=
    unique_first_of_class (.array items) .null [] hkeys
  obtain rfl : kept = firsts := by
    rw [hunique] at hkept
    exact (Value.array.inj (Except.ok.inj hkept)).symm
  exact ⟨hkeys, hunique, hlists, hone, hagain⟩

end Filter

end Reshape
