import Mathlib.Logic.Basic

/-!
# Code points and code units

Texts in the order of their code points against texts in the order of their UTF-16 code units.
Characters past `U+FFFF` are written as two surrogates, which are less than the characters from
`U+E000` to `U+FFFF`, and this is the only difference between the two orders.
-/

namespace Reshape.Text

def charUnits (c : Char) : List Nat :=
  if c.toNat < 0x10000 then [c.toNat]
  else [0xD800 + (c.toNat - 0x10000) / 0x400, 0xDC00 + (c.toNat - 0x10000) % 0x400]

def units (cs : List Char) : List Nat :=
  cs.flatMap charUnits

/-- A lesser character with the greater code units. -/
def Overtakes (c d : Char) : Prop :=
  0xE000 ≤ c.toNat ∧ c.toNat < 0x10000 ∧ 0x10000 ≤ d.toNat

instance (c d : Char) : Decidable (Overtakes c d) :=
  inferInstanceAs (Decidable (_ ∧ _))

/-- Texts of which the first has the greater code units, though it has the lesser character where
the two first differ. -/
inductive Swapped : List Char → List Char → Prop
  | head {c d : Char} (cs ds : List Char) (hchars : Overtakes c d) : Swapped (c :: cs) (d :: ds)
  | tail (c : Char) {cs ds : List Char} (hrest : Swapped cs ds) : Swapped (c :: cs) (c :: ds)

section Units

variable {c d : Char} {cs ds : List Char}

theorem scalar_bounds (c : Char) :
    c.toNat < 0xD800 ∨ 0xE000 ≤ c.toNat ∧ c.toNat < 0x110000 := by
  rcases c.valid with hlow | ⟨hhigh, hlast⟩
  · exact Or.inl hlow
  · exact Or.inr ⟨hhigh, hlast⟩

theorem charUnits_append_lt_iff (hlt : c < d) (front back : List Nat) :
    charUnits d ++ back < charUnits c ++ front ↔ Overtakes c d := by
  have hlt : c.toNat < d.toNat := hlt
  have hc := scalar_bounds c
  have hd := scalar_bounds d
  unfold charUnits Overtakes
  -- the first units in which the two characters differ decide, whatever follows
  split <;> split <;>
    simp only [List.cons_append, List.nil_append, List.cons_lt_cons_iff] <;> omega

theorem units_cons_lt_units_cons_iff :
    units (c :: cs) < units (c :: ds) ↔ units cs < units ds := by
  change charUnits c ++ units cs < charUnits c ++ units ds ↔ _
  unfold charUnits
  split <;> simp only [List.cons_append, List.nil_append, List.cons_lt_cons_iff, Nat.lt_irrefl,
    false_or, true_and]

theorem swapped_cons_iff (hne : c ≠ d) : Swapped (c :: cs) (d :: ds) ↔ Overtakes c d := by
  constructor
  · intro hswapped
    cases hswapped with
    | head _ _ hchars => exact hchars
    | tail _ _ => exact absurd rfl hne
  · exact .head cs ds

theorem swapped_cons_self_iff : Swapped (c :: cs) (c :: ds) ↔ Swapped cs ds := by
  constructor
  · intro hswapped
    cases hswapped with
    | head _ _ hchars =>
        unfold Overtakes at hchars
        omega
    | tail _ hrest => exact hrest
  · exact .tail c

theorem not_swapped (hds : ∀ d ∈ ds, d.toNat < 0x10000) : ¬ Swapped cs ds := by
  intro hswapped
  induction hswapped with
  | head _ _ hchars => exact absurd hchars.2.2 (Nat.not_le.mpr (hds _ List.mem_cons_self))
  | tail _ _ ih => exact ih fun d hd => hds d (List.mem_cons_of_mem _ hd)

/-- Of two texts in the order of code points, those that are swapped are in the other order of code
units. -/
theorem units_lt_units_iff (hle : ¬ ds < cs) : units ds < units cs ↔ Swapped cs ds := by
  induction cs generalizing ds with
  | nil => exact iff_of_false (List.not_lt_nil _) nofun
  | cons c cs ih =>
      cases ds with
      | nil => exact absurd (List.nil_lt_cons c cs) hle
      | cons d ds =>
          by_cases heq : c = d
          · subst heq
            have hrest : ¬ ds < cs := fun hlt => hle (List.cons_lt_cons_iff.mpr (Or.inr ⟨rfl, hlt⟩))
            rw [units_cons_lt_units_cons_iff, swapped_cons_self_iff, ih hrest]
          · have hlt : c < d := by
              have hne : c.toNat ≠ d.toNat := fun h => heq (Char.toNat_inj.mp h)
              have hge : ¬ d.toNat < c.toNat := fun h => hle (List.cons_lt_cons_iff.mpr (Or.inl h))
              exact Nat.lt_of_le_of_ne (Nat.le_of_not_lt hge) hne
            rw [swapped_cons_iff heq]
            exact charUnits_append_lt_iff hlt (units cs) (units ds)

end Units

end Reshape.Text
