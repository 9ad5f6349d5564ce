import Reshape.Proofs.Value.Match

/-!
# Loose equality as an equivalence

Structural equality passes down to items and members, and loose equality differs from it for two
numbers only, so that a chain of loose equalities is one of numbers or one of structural equalities.
Transitivity holds of all values. An object equals itself, and equals back what equals it, as long as
no key stands in it twice.
-/

namespace Reshape

theorem Double.same_symm {a b : Double} (hsame : a.same b = true) : b.same a = true := by
  simp only [same, Bool.or_eq_true, Bool.and_eq_true, beq_iff_eq] at hsame ⊢
  exact hsame.imp And.symm Eq.symm

theorem Binary64.same_symm {x y : Binary64} (hsame : x.same y = true) : y.same x = true := by
  cases x <;> cases y
  case finite.finite => exact Double.same_symm hsame
  case infinite.infinite =>
    rw [same, beq_iff_eq] at hsame ⊢
    exact hsame.symm
  all_goals cases hsame

namespace Number

theorem same_refl (n : Number) : n.same n = true := by
  cases n with
  | integer k => exact beq_self_eq_true k
  | double d => exact d.same_refl

theorem same_symm {m n : Number} (hsame : m.same n = true) : n.same m = true := by
  cases m <;> cases n
  case integer.integer =>
    rw [same, beq_iff_eq] at hsame ⊢
    exact hsame.symm
  case double.double => exact Double.same_symm hsame
  all_goals cases hsame

theorem same_trans {l m n : Number} (hlm : l.same m = true) (hmn : m.same n = true) :
    l.same n = true := by
  cases l <;> cases m <;> cases n
  case integer.integer.integer =>
    rw [same, beq_iff_eq] at hlm hmn ⊢
    exact hlm.trans hmn
  case double.double.double => exact Double.same_trans hlm hmn
  all_goals first | cases hlm | cases hmn

end Number

namespace Value

variable {a b c : Value}

/-! ### What equals a value, shape by shape -/

theorem same_null_iff : a.same .null = true ↔ a = .null := by
  cases a <;> simp [same]

theorem same_bool_iff {flag : Bool} : a.same (.bool flag) = true ↔ a = .bool flag := by
  cases a <;> simp [same]

theorem same_number_iff {n : Number} :
    a.same (.number n) = true ↔ ∃ m, a = .number m ∧ m.same n = true := by
  cases a <;> simp [same]

theorem same_string_iff {text : String} : a.same (.string text) = true ↔ a = .string text := by
  cases a <;> simp [same]

theorem sameItems_iff {xs ys : List Value} :
    sameItems xs ys = true ↔
      xs.length = ys.length ∧
        ∀ (i : Nat) (hx : i < xs.length) (hy : i < ys.length), xs[i].same ys[i] = true := by
  have hforall : sameItems xs ys = true ↔
      List.Forall₂ (fun x y : Value => x.same y = true) xs ys := by
    induction xs generalizing ys with
    | nil => cases ys <;> simp [sameItems]
    | cons x xs ih => cases ys <;> simp [sameItems, ih]
  exact hforall.trans List.forall₂_iff_get

theorem same_array_iff {ys : List Value} :
    a.same (.array ys) = true ↔
      ∃ xs, a = .array xs ∧ xs.length = ys.length ∧
        ∀ (i : Nat) (hx : i < xs.length) (hy : i < ys.length), xs[i].same ys[i] = true := by
  cases a <;> simp [same, sameItems_iff]

theorem same_object_iff {gs : Fields Value} :
    a.same (.object gs) = true ↔
      ∃ fs, a = .object fs ∧ fs.length = gs.length ∧
        ∀ field ∈ fs, ∃ y, Fields.get? gs field.1 = some y ∧ field.2.same y = true := by
  cases a <;> simp [same, sameFields_iff]

/-! ### Structural equality -/

theorem same_refl (hkeys : a.HasDistinctKeys) : a.same a = true := by
  induction a with
  | null => exact same_null_iff.mpr rfl
  | bool flag => exact same_bool_iff.mpr rfl
  | number n => exact same_number_iff.mpr ⟨n, rfl, n.same_refl⟩
  | string text => exact same_string_iff.mpr rfl
  | array items ih =>
      refine same_array_iff.mpr ⟨items, rfl, rfl, fun i hi _ => ?_⟩
      have hmem : items[i] ∈ items := List.getElem_mem hi
      exact ih items[i] hmem (hkeys.item hmem)
  | object fields ih =>
      refine same_object_iff.mpr ⟨fields, rfl, rfl, fun field hmem => ?_⟩
      exact ⟨field.2, Fields.get?_of_mem (hkeys fields .here) hmem, ih field hmem (hkeys.member hmem)⟩

theorem same_symm (ha : a.HasDistinctKeys) (hb : b.HasDistinctKeys) (hsame : a.same b = true) :
    b.same a = true := by
  induction b generalizing a with
  | null =>
      obtain rfl := same_null_iff.mp hsame
      exact hsame
  | bool flag =>
      obtain rfl := same_bool_iff.mp hsame
      exact hsame
  | number n =>
      obtain ⟨m, rfl, hmn⟩ := same_number_iff.mp hsame
      exact same_number_iff.mpr ⟨n, rfl, Number.same_symm hmn⟩
  | string text =>
      obtain rfl := same_string_iff.mp hsame
      exact hsame
  | array ys ih =>
      obtain ⟨xs, rfl, hlength, hitems⟩ := same_array_iff.mp hsame
      refine same_array_iff.mpr ⟨ys, rfl, hlength.symm, fun i hy hx => ?_⟩
      have hmem : ys[i] ∈ ys := List.getElem_mem hy
      exact ih ys[i] hmem (ha.item (List.getElem_mem hx)) (hb.item hmem) (hitems i hx hy)
  | object gs ih =>
      -- equality looks up the keys of the first in the second, here the other way round
      obtain ⟨fs, rfl, hlength, hfields⟩ := same_object_iff.mp hsame
      refine same_object_iff.mpr ⟨gs, rfl, hlength.symm, fun wanted hwanted => ?_⟩
      obtain ⟨x, hx, hxw⟩ := exists_same_of_sameFields (ha fs .here) (hb gs .here) hlength
        (sameFields_iff.mpr hfields) wanted hwanted
      have hmem : (wanted.1, x) ∈ fs := Fields.mem_of_get? hx
      exact ⟨x, hx, ih wanted hwanted (ha.member hmem) (hb.member hwanted) hxw⟩

theorem same_trans (hab : a.same b = true) (hbc : b.same c = true) : a.same c = true := by
  induction c generalizing a b with
  | null =>
      obtain rfl := same_null_iff.mp hbc
      exact hab
  | bool flag =>
      obtain rfl := same_bool_iff.mp hbc
      exact hab
  | number n =>
      obtain ⟨m, rfl, hmn⟩ := same_number_iff.mp hbc
      obtain ⟨l, rfl, hlm⟩ := same_number_iff.mp hab
      exact same_number_iff.mpr ⟨l, rfl, Number.same_trans hlm hmn⟩
  | string text =>
      obtain rfl := same_string_iff.mp hbc
      exact hab
  | array zs ih =>
      obtain ⟨ys, rfl, hyz, hmiddle⟩ := same_array_iff.mp hbc
      obtain ⟨xs, rfl, hxy, hitems⟩ := same_array_iff.mp hab
      refine same_array_iff.mpr ⟨xs, rfl, hxy.trans hyz, fun i hx hz => ?_⟩
      have hy : i < ys.length := hxy ▸ hx
      exact ih zs[i] (List.getElem_mem hz) (hitems i hx hy) (hmiddle i hy hz)
  | object hs ih =>
      obtain ⟨gs, rfl, hgh, hmiddle⟩ := same_object_iff.mp hbc
      obtain ⟨fs, rfl, hfg, hfields⟩ := same_object_iff.mp hab
      refine same_object_iff.mpr ⟨fs, rfl, hfg.trans hgh, fun field hmem => ?_⟩
      obtain ⟨y, hy, hfy⟩ := hfields field hmem
      obtain ⟨z, hz, hyz⟩ := hmiddle (field.1, y) (Fields.mem_of_get? hy)
      exact ⟨z, hz, ih (field.1, z) (Fields.mem_of_get? hz) hfy hyz⟩

/-! ### Loose equality -/

theorem looselyEqual_number_iff {n : Number} :
    a.looselyEqual (.number n) = true ↔
      ∃ m, a = .number m ∧ m.approximate.same n.approximate = true := by
  cases a <;> simp [looselyEqual, same]

theorem same_of_looselyEqual (hb : ∀ n, b ≠ .number n) (hequal : a.looselyEqual b = true) :
    a.same b = true := by
  cases b with
  | number n => exact absurd rfl (hb n)
  | _ => cases a <;> exact hequal

theorem looselyEqual_refl (ha : a.HasDistinctKeys) : a.looselyEqual a = true :=
  looselyEqual_of_same (same_refl ha)

theorem looselyEqual_symm (ha : a.HasDistinctKeys) (hb : b.HasDistinctKeys)
    (hequal : a.looselyEqual b = true) : b.looselyEqual a = true := by
  cases b with
  | number n =>
      obtain ⟨m, rfl, hmn⟩ := looselyEqual_number_iff.mp hequal
      exact looselyEqual_number_iff.mpr ⟨n, rfl, Binary64.same_symm hmn⟩
  | _ => exact looselyEqual_of_same (same_symm ha hb (same_of_looselyEqual (by simp) hequal))

/-- The value in the middle decides whether all three are compared as numbers. -/
theorem looselyEqual_trans (hab : a.looselyEqual b = true) (hbc : b.looselyEqual c = true) :
    a.looselyEqual c = true := by
  cases b with
  | number m =>
      obtain ⟨l, rfl, hlm⟩ := looselyEqual_number_iff.mp hab
      cases c with
      | number n => exact Binary64.same_trans hlm hbc
      | _ => cases hbc
  | _ => exact looselyEqual_of_same (same_trans (same_of_looselyEqual (by simp) hab) hbc)

/-- Loose equality of values that could be written as JSON is an equivalence. -/
theorem looselyEqual_equivalence :
    Equivalence fun a b : {value : Value // value.HasDistinctKeys} =>
      a.1.looselyEqual b.1 = true where
  refl a := looselyEqual_refl a.2
  symm {a b} hequal := looselyEqual_symm a.2 b.2 hequal
  trans hab hbc := looselyEqual_trans hab hbc

end Value

end Reshape
