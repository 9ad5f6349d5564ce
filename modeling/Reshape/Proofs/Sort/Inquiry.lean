import Reshape.Filter.Sort
import Reshape.Proofs.Except

/-!
# The comparisons of a sort

A sort knows nothing of its items but the answers of the comparator, so that it is a tree of
comparisons, made before the comparator is known. Run with a comparator that may fail, it follows
the answers down the tree and stops at the first comparison that fails.
-/

namespace Reshape.Filter

theorem mergeWith_nil_right (compare : Callback) (xs : List Value) :
    mergeWith compare xs [] = .ok xs := by
  cases xs with
  | nil => rw [mergeWith]
  | cons x xs =>
      rw [mergeWith]
      exact List.cons_ne_nil x xs

/-- Items in their order, or two items to compare and how to go on, told whether the first one is
greater. -/
inductive Inquiry where
  | done (items : List Value)
  | ask (left right : Value) (next : Bool → Inquiry)

namespace Inquiry

def bind : Inquiry → (List Value → Inquiry) → Inquiry
  | done items, f => f items
  | ask left right next, f => ask left right fun greater => (next greater).bind f

def run (compare : Callback) : Inquiry → Except FilterError (List Value)
  | done items => .ok items
  | ask left right next => do
    let order ← compareWith compare left right
    (next (order == .gt)).run compare

/-- The comparisons that are made, in order; the last one may have failed. -/
def made (compare : Callback) : Inquiry → List (Value × Value)
  | done _ => []
  | ask left right next => (left, right) ::
    match compareWith compare left right with
    | .ok order => (next (order == .gt)).made compare
    | .error _ => []

variable {compare : Callback}

theorem run_bind (inquiry : Inquiry) (f : List Value → Inquiry) :
    (inquiry.bind f).run compare = inquiry.run compare >>= fun items => (f items).run compare := by
  induction inquiry with
  | done items => rfl
  | ask left right next ih =>
      rw [bind, run, run, bind_assoc]
      exact bind_congr fun order => ih (order == .gt)

/-- A failure is that of the first comparison that fails, the last one made. -/
theorem run_eq_error_iff {inquiry : Inquiry} {error : FilterError} :
    inquiry.run compare = .error error ↔
      ∃ before left right, inquiry.made compare = before ++ [(left, right)] ∧
        (∀ pair ∈ before, ∃ order, compareWith compare pair.1 pair.2 = .ok order) ∧
        compareWith compare left right = .error error := by
  induction inquiry with
  | done items => simp [run, made]
  | ask left right next ih =>
      rw [run, made]
      cases hcompare : compareWith compare left right with
      | error cause =>
          constructor
          · rintro ⟨⟩
            exact ⟨[], left, right, rfl, nofun, hcompare⟩
          · rintro ⟨before, l, r, hmade, hbefore, hlast⟩
            cases before with
            | nil =>
                obtain ⟨rfl, rfl⟩ := Prod.mk.inj (List.cons.inj hmade).1
                obtain rfl := Except.error.inj (hcompare.symm.trans hlast)
                rfl
            | cons pair before =>
                obtain ⟨-, hrest⟩ := List.cons.inj hmade
                simp at hrest
      | ok order =>
          refine (ih (order == .gt)).trans ?_
          constructor
          · rintro ⟨before, l, r, hmade, hbefore, hlast⟩
            exact ⟨(left, right) :: before, l, r, congrArg _ hmade,
              List.forall_mem_cons.mpr ⟨⟨order, hcompare⟩, hbefore⟩, hlast⟩
          · rintro ⟨before, l, r, hmade, hbefore, hlast⟩
            cases before with
            | nil =>
                obtain ⟨rfl, rfl⟩ := Prod.mk.inj (List.cons.inj hmade).1
                cases hcompare.symm.trans hlast
            | cons pair before =>
                exact ⟨before, l, r, (List.cons.inj hmade).2,
                  (List.forall_mem_cons.mp hbefore).2, hlast⟩

/-! ### Merge sort as an inquiry -/

def merging : List Value → List Value → Inquiry
  | [], ys => done ys
  | xs, [] => done xs
  | x :: xs, y :: ys => ask x y fun greater =>
    if greater then (merging (x :: xs) ys).bind fun merged => done (y :: merged)
    else (merging xs (y :: ys)).bind fun merged => done (x :: merged)
termination_by xs ys => xs.length + ys.length

def sorting : Nat → List Value → Inquiry
  | 0, items => done items
  | depth + 1, items =>
    if items.length ≤ 1 then done items
    else
      (sorting depth (items.take (items.length / 2))).bind fun left =>
        (sorting depth (items.drop (items.length / 2))).bind fun right => merging left right

theorem merging_nil_right (xs : List Value) : merging xs [] = done xs := by
  cases xs with
  | nil => rw [merging]
  | cons x xs => rw [merging]; exact nofun

theorem run_merging (xs ys : List Value) :
    (merging xs ys).run compare = mergeWith compare xs ys := by
  induction xs, ys using mergeWith.induct with
  | case1 ys => rw [merging, mergeWith, run]
  | case2 xs => rw [merging_nil_right, mergeWith_nil_right, run]
  | case3 x xs y ys ihGreater ihNot =>
      rw [merging, mergeWith, run]
      refine bind_congr fun order => ?_
      by_cases hgreater : order = .gt
      · rw [if_pos hgreater, if_pos (beq_iff_eq.mpr hgreater), run_bind, ihGreater]
        rfl
      · rw [if_neg hgreater, if_neg (mt beq_iff_eq.mp hgreater), run_bind, ihNot]
        rfl

theorem run_sorting (depth : Nat) (items : List Value) :
    (sorting depth items).run compare = sortHalves compare depth items := by
  induction depth generalizing items with
  | zero => rfl
  | succ depth ih =>
      rw [sorting, sortHalves]
      split
      · rfl
      · simp only [run_bind, ih, run_merging]

end Inquiry

end Reshape.Filter
