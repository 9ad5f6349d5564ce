import Mathlib.Data.List.Perm.Subperm
import Reshape.Proofs.Fields
import Reshape.Proofs.Value.Tree
import Reshape.Value.Match

/-!
# Matching as an order

A value matches a pattern that asks for less: fewer keys, items that are among its own in any order and
number, numbers that are rounded to the same double. What the value must be is decided by the shape of
the pattern alone, so that in a chain of matches the last pattern decides the shapes of all values.

Equality inside arrays and objects is stricter than matching, for it tells whole numbers from doubles,
and so it passes down to the items and members. Only the keys need an argument: equality looks up the
keys of the value in the pattern, and matching those of the pattern in the value.
-/

namespace Reshape

/-! ### Numbers -/

namespace Double

theorem same_refl (d : Double) : d.same d = true := by
  simp [same]

theorem same_trans {a b c : Double} (hab : a.same b = true) (hbc : b.same c = true) :
    a.same c = true := by
  simp only [same, Bool.or_eq_true, Bool.and_eq_true, beq_iff_eq] at hab hbc ⊢
  rcases hab with ⟨hzero, hzerob⟩ | rfl
  · rcases hbc with ⟨-, hzeroc⟩ | rfl
    · exact Or.inl ⟨hzero, hzeroc⟩
    · exact Or.inl ⟨hzero, hzerob⟩
  · exact hbc

end Double

namespace Binary64

theorem same_self_iff {x : Binary64} : x.same x = true ↔ x ≠ .nan := by
  cases x with
  | finite d => exact iff_of_true d.same_refl nofun
  | infinite negative => exact iff_of_true (beq_self_eq_true negative) nofun
  | nan => exact iff_of_false nofun fun hne => hne rfl

theorem same_trans {x y z : Binary64} (hxy : x.same y = true) (hyz : y.same z = true) :
    x.same z = true := by
  cases x <;> cases y <;> cases z
  case finite.finite.finite => exact Double.same_trans hxy hyz
  case infinite.infinite.infinite =>
    rw [same, beq_iff_eq] at hxy hyz ⊢
    exact hxy.trans hyz
  all_goals simp [same] at hxy hyz

theorem ofFraction_ne_nan (negative : Bool) (numerator denominator : Nat) :
    ofFraction negative numerator denominator ≠ .nan := by
  intro hnan
  unfold ofFraction at hnan
  dsimp only at hnan
  repeat' split at hnan
  all_goals cases hnan

end Binary64

namespace Number

theorem approximate_same_self (n : Number) : n.approximate.same n.approximate = true := by
  rw [Binary64.same_self_iff]
  cases n with
  | integer n => exact Binary64.ofFraction_ne_nan _ _ _
  | double d => exact nofun

theorem approximate_same_of_same {m n : Number} (hsame : m.same n = true) :
    m.approximate.same n.approximate = true := by
  cases m with
  | integer k =>
      cases n with
      | integer l =>
          obtain rfl : k = l := beq_iff_eq.mp hsame
          exact approximate_same_self (.integer k)
      | double d => cases hsame
  | double d =>
      cases n with
      | integer k => cases hsame
      | double e => exact hsame

end Number

namespace Value

variable {a b c value : Value}

/-! ### What a pattern asks for, shape by shape -/

theorem hasItems_iff {items pattern : List Value} :
    hasItems items pattern = true ↔
      ∀ wanted ∈ pattern, ∃ item ∈ items, item.isMatch wanted = true := by
  induction pattern with
  | nil => exact iff_of_true rfl nofun
  | cons wanted rest ih =>
      rw [hasItems, Bool.and_eq_true, List.any_eq_true, ih, List.forall_mem_cons]

theorem hasFields_iff {fields pattern : Fields Value} :
    hasFields fields pattern = true ↔
      ∀ wanted ∈ pattern,
        ∃ entry, fields.get? wanted.1 = some entry ∧ entry.isMatch wanted.2 = true := by
  induction pattern with
  | nil => exact iff_of_true rfl nofun
  | cons wanted rest ih =>
      rw [hasFields, Bool.and_eq_true, ih, List.forall_mem_cons]
      cases fields.get? wanted.1 <;> simp

theorem isMatch_null_iff : value.isMatch .null = true ↔ value = .null := by
  cases value <;> simp [isMatch, looselyEqual, same]

theorem isMatch_bool_iff {flag : Bool} : value.isMatch (.bool flag) = true ↔ value = .bool flag := by
  cases value <;> simp [isMatch, looselyEqual, same]

theorem isMatch_number_iff {n : Number} :
    value.isMatch (.number n) = true ↔
      ∃ m, value = .number m ∧ m.approximate.same n.approximate = true := by
  constructor
  · intro hmatch
    cases value with
    | number m => exact ⟨m, rfl, hmatch⟩
    | _ => cases hmatch
  · rintro ⟨m, rfl, hsame⟩
    exact hsame

theorem isMatch_string_iff {text : String} :
    value.isMatch (.string text) = true ↔ value = .string text := by
  cases value <;> simp [isMatch, looselyEqual, same]

theorem isMatch_array_iff {pattern : List Value} :
    value.isMatch (.array pattern) = true ↔
      ∃ items, value = .array items ∧
        ∀ wanted ∈ pattern, ∃ item ∈ items, item.isMatch wanted = true := by
  cases value <;> simp [isMatch, hasItems_iff]

theorem isMatch_object_iff {pattern : Fields Value} :
    value.isMatch (.object pattern) = true ↔
      ∃ fields, value = .object fields ∧
        ∀ wanted ∈ pattern,
          ∃ entry, Fields.get? fields wanted.1 = some entry ∧ entry.isMatch wanted.2 = true := by
  cases value <;> simp only [isMatch, hasFields_iff] <;> simp

theorem typeName_eq_of_isMatch (hmatch : a.isMatch b = true) : a.typeName = b.typeName := by
  cases b with
  | null => rw [isMatch_null_iff.mp hmatch]
  | bool flag => rw [isMatch_bool_iff.mp hmatch]
  | number n =>
      obtain ⟨m, rfl, -⟩ := isMatch_number_iff.mp hmatch
      rfl
  | string text => rw [isMatch_string_iff.mp hmatch]
  | array pattern =>
      obtain ⟨items, rfl, -⟩ := isMatch_array_iff.mp hmatch
      rfl
  | object pattern =>
      obtain ⟨fields, rfl, -⟩ := isMatch_object_iff.mp hmatch
      rfl

/-! ### The preorder -/

theorem isMatch_refl (hkeys : a.HasDistinctKeys) : a.isMatch a = true := by
  induction a with
  | null => exact isMatch_null_iff.mpr rfl
  | bool flag => exact isMatch_bool_iff.mpr rfl
  | number n => exact isMatch_number_iff.mpr ⟨n, rfl, n.approximate_same_self⟩
  | string text => exact isMatch_string_iff.mpr rfl
  | array items ih =>
      refine isMatch_array_iff.mpr ⟨items, rfl, fun wanted hmem => ?_⟩
      exact ⟨wanted, hmem, ih wanted hmem (hkeys.item hmem)⟩
  | object fields ih =>
      refine isMatch_object_iff.mpr ⟨fields, rfl, fun wanted hmem => ?_⟩
      exact ⟨wanted.2, Fields.get?_of_mem (hkeys fields .here) hmem,
        ih wanted hmem (hkeys.member hmem)⟩

/-- The shape of the last pattern decides the shapes of the other two. -/
theorem isMatch_trans (hab : a.isMatch b = true) (hbc : b.isMatch c = true) :
    a.isMatch c = true := by
  induction c generalizing a b with
  | null =>
      obtain rfl := isMatch_null_iff.mp hbc
      exact hab
  | bool flag =>
      obtain rfl := isMatch_bool_iff.mp hbc
      exact hab
  | number n =>
      obtain ⟨m, rfl, hmn⟩ := isMatch_number_iff.mp hbc
      obtain ⟨l, rfl, hlm⟩ := isMatch_number_iff.mp hab
      exact isMatch_number_iff.mpr ⟨l, rfl, Binary64.same_trans hlm hmn⟩
  | string text =>
      obtain rfl := isMatch_string_iff.mp hbc
      exact hab
  | array pattern ih =>
      obtain ⟨middle, rfl, hmiddle⟩ := isMatch_array_iff.mp hbc
      obtain ⟨items, rfl, hitems⟩ := isMatch_array_iff.mp hab
      refine isMatch_array_iff.mpr ⟨items, rfl, fun wanted hwanted => ?_⟩
      obtain ⟨between, hbetween, hbw⟩ := hmiddle wanted hwanted
      obtain ⟨item, hitem, hib⟩ := hitems between hbetween
      exact ⟨item, hitem, ih wanted hwanted hib hbw⟩
  | object pattern ih =>
      obtain ⟨middle, rfl, hmiddle⟩ := isMatch_object_iff.mp hbc
      obtain ⟨fields, rfl, hfields⟩ := isMatch_object_iff.mp hab
      refine isMatch_object_iff.mpr ⟨fields, rfl, fun wanted hwanted => ?_⟩
      obtain ⟨between, hbetween, hbw⟩ := hmiddle wanted hwanted
      obtain ⟨entry, hentry, heb⟩ := hfields (wanted.1, between) (Fields.mem_of_get? hbetween)
      exact ⟨entry, hentry, ih wanted hwanted heb hbw⟩

/-! ### Equality -/

theorem looselyEqual_of_same (hsame : a.same b = true) : a.looselyEqual b = true := by
  cases a <;> cases b
  case number.number m n => exact Number.approximate_same_of_same hsame
  all_goals exact hsame

theorem exists_same_of_sameItems {xs ys : List Value} (hsame : sameItems xs ys = true) :
    ∀ y ∈ ys, ∃ x ∈ xs, x.same y = true := by
  induction xs generalizing ys with
  | nil =>
      cases ys with
      | nil => exact nofun
      | cons y ys => cases hsame
  | cons x xs ih =>
      cases ys with
      | nil => exact nofun
      | cons y ys =>
          rw [sameItems, Bool.and_eq_true] at hsame
          refine List.forall_mem_cons.mpr ⟨⟨x, List.mem_cons_self, hsame.1⟩, fun z hz => ?_⟩
          obtain ⟨w, hw, hwz⟩ := ih hsame.2 z hz
          exact ⟨w, List.mem_cons_of_mem x hw, hwz⟩

theorem sameFields_iff {fs gs : Fields Value} :
    sameFields fs gs = true ↔
      ∀ field ∈ fs, ∃ y, gs.get? field.1 = some y ∧ field.2.same y = true := by
  induction fs with
  | nil => exact iff_of_true rfl nofun
  | cons field rest ih =>
      rw [sameFields, Bool.and_eq_true, ih, List.forall_mem_cons]
      cases gs.get? field.1 <;> simp

/-- Objects of one length that have distinct keys have the same keys if those of the first are among
those of the second. -/
theorem exists_same_of_sameFields {fs gs : Fields Value} (hfs : fs.keys.Nodup) (hgs : gs.keys.Nodup)
    (hlength : fs.length = gs.length) (hsame : sameFields fs gs = true) :
    ∀ wanted ∈ gs, ∃ x, fs.get? wanted.1 = some x ∧ x.same wanted.2 = true := by
  rw [sameFields_iff] at hsame
  have hsubset : fs.keys ⊆ gs.keys := by
    intro key hkey
    obtain ⟨field, hfield, rfl⟩ := List.mem_map.mp hkey
    obtain ⟨y, hy, -⟩ := hsame field hfield
    exact List.mem_map.mpr ⟨(field.1, y), Fields.mem_of_get? hy, rfl⟩
  have hperm : fs.keys.Perm gs.keys :=
    (List.subperm_of_subset hfs hsubset).perm_of_length_le (by simp [Fields.keys, hlength])
  intro wanted hwanted
  obtain ⟨field, hfield, hkey⟩ := List.mem_map.mp (hperm.mem_iff.mpr (List.mem_map_of_mem hwanted))
  obtain ⟨y, hy, hfy⟩ := hsame field hfield
  rw [hkey, Fields.get?_of_mem hgs hwanted] at hy
  obtain rfl := Option.some.inj hy
  exact ⟨field.2, hkey ▸ Fields.get?_of_mem hfs hfield, hfy⟩

theorem isMatch_of_same (ha : a.HasDistinctKeys) (hb : b.HasDistinctKeys)
    (hsame : a.same b = true) : a.isMatch b = true := by
  induction b generalizing a with
  | null => exact looselyEqual_of_same hsame
  | bool flag => exact looselyEqual_of_same hsame
  | number n => exact looselyEqual_of_same hsame
  | string text => exact looselyEqual_of_same hsame
  | array ys ih =>
      cases a with
      | array xs =>
          refine isMatch_array_iff.mpr ⟨xs, rfl, fun wanted hwanted => ?_⟩
          obtain ⟨x, hx, hxw⟩ := exists_same_of_sameItems hsame wanted hwanted
          exact ⟨x, hx, ih wanted hwanted (ha.item hx) (hb.item hwanted) hxw⟩
      | _ => cases hsame
  | object gs ih =>
      cases a with
      | object fs =>
          rw [same, Bool.and_eq_true, beq_iff_eq] at hsame
          refine isMatch_object_iff.mpr ⟨fs, rfl, fun wanted hwanted => ?_⟩
          obtain ⟨x, hx, hxw⟩ :=
            exists_same_of_sameFields (ha fs .here) (hb gs .here) hsame.1 hsame.2 wanted hwanted
          exact ⟨x, hx, ih wanted hwanted (ha.member (Fields.mem_of_get? hx)) (hb.member hwanted) hxw⟩
      | _ => cases hsame

theorem isMatch_of_looselyEqual (ha : a.HasDistinctKeys) (hb : b.HasDistinctKeys)
    (hequal : a.looselyEqual b = true) : a.isMatch b = true := by
  cases b with
  | number n => exact hequal
  | _ =>
      refine isMatch_of_same ha hb ?_
      cases a <;> exact hequal

/-- **Matching is a preorder that extends loose equality.** Of any values, as long as no object among
them has a key twice; and it keeps to values of one type. -/
theorem isMatch_preorder (a b c : Value) :
    (a.HasDistinctKeys → a.isMatch a = true) ∧
      (a.isMatch b = true → b.isMatch c = true → a.isMatch c = true) ∧
      (a.HasDistinctKeys → b.HasDistinctKeys → a.looselyEqual b = true → a.isMatch b = true) ∧
      (a.isMatch b = true → a.typeName = b.typeName) :=
  ⟨isMatch_refl, isMatch_trans, isMatch_of_looselyEqual, typeName_eq_of_isMatch⟩

/-- Keys in another order, and a pattern for one item that writes its number as a double. -/
theorem isMatch_preorder_nested :
    let entry : Value := .array [.string "x", .object [("k", .integer 2)]]
    let a : Value := .object [("n", .integer 1), ("items", entry)]
    let b : Value := .object [("items", entry), ("n", .integer 1)]
    let c : Value :=
      .object [("items", .array [.object [("k", .number (.double ⟨false, 1 <<< 52, -51, by decide⟩))]])]
    a.HasDistinctKeys ∧ b.HasDistinctKeys ∧ a.looselyEqual b = true ∧ b.isMatch c = true ∧
      a.isMatch a = true ∧ a.isMatch b = true ∧ a.isMatch c = true ∧ a.typeName = b.typeName := by
  intro entry a b c
  have ha : a.HasDistinctKeys := by
    simp [a, entry, HasDistinctKeys, Fields.keys, integer]
  have hb : b.HasDistinctKeys := by
    simp [b, entry, HasDistinctKeys, Fields.keys, integer]
  have hequal : a.looselyEqual b = true := by decide +kernel
  have hbc : b.isMatch c = true := by decide +kernel
  obtain ⟨hrefl, htrans, hextends, htype⟩ := isMatch_preorder a b c
  have hab : a.isMatch b = true := hextends ha hb hequal
  exact ⟨ha, hb, hequal, hbc, hrefl ha, hab, htrans hab hbc, htype hab⟩

end Value

end Reshape
