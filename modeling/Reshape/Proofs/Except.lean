import Mathlib.Data.List.Forall2

/-!
# Steps that may fail

What a sequence of such steps gives, read backwards, and folds of them over a list: a fold fails
with the first step that fails. Steps that do not depend on each other are a map over the list.
-/

namespace Reshape

variable {ε ε' α β : Type}

theorem bind_eq_ok_iff {first : Except ε α} {next : α → Except ε β} {result : β} :
    (first >>= next) = .ok result ↔ ∃ middle, first = .ok middle ∧ next middle = .ok result := by
  cases first <;> simp [bind, Except.bind]

theorem bind_eq_error_iff {first : Except ε α} {next : α → Except ε β} {error : ε} :
    (first >>= next) = .error error ↔
      first = .error error ∨ ∃ middle, first = .ok middle ∧ next middle = .error error := by
  cases first <;> simp [bind, Except.bind]

theorem map_eq_ok_iff {f : α → β} {first : Except ε α} {result : β} :
    first.map f = .ok result ↔ ∃ middle, first = .ok middle ∧ f middle = result := by
  cases first <;> simp [Except.map]

theorem map_eq_error_iff {f : α → β} {first : Except ε α} {error : ε} :
    first.map f = .error error ↔ first = .error error := by
  cases first <;> simp [Except.map]

theorem exists_map_eq_ok_iff {f : α → β} {first : Except ε α} :
    (∃ result, first.map f = .ok result) ↔ ∃ middle, first = .ok middle := by
  cases first <;> simp [Except.map]

theorem mapError_eq_ok_iff {f : ε → ε'} {first : Except ε α} {result : α} :
    first.mapError f = .ok result ↔ first = .ok result := by
  cases first with
  | ok value =>
      change Except.ok value = .ok result ↔ _
      simp
  | error error =>
      change Except.error (f error) = .ok result ↔ _
      simp

theorem mapError_eq_error_iff {f : ε → ε'} {first : Except ε α} {error : ε'} :
    first.mapError f = .error error ↔ ∃ cause, first = .error cause ∧ f cause = error := by
  cases first with
  | ok value =>
      change Except.ok value = .error error ↔ _
      simp
  | error cause =>
      change Except.error (f cause) = .error error ↔ _
      simp

/-! ### Errors in other words -/

theorem mapError_bind (f : ε → ε') (first : Except ε α) (next : α → Except ε β) :
    (first >>= next).mapError f = first.mapError f >>= fun value => (next value).mapError f := by
  cases first <;> rfl

theorem mapError_map (f : ε → ε') (g : α → β) (first : Except ε α) :
    (first.map g).mapError f = (first.mapError f).map g := by
  cases first <;> rfl

theorem mapError_foldlM (f : ε → ε') (step : β → α → Except ε β) (items : List α) (state : β) :
    (items.foldlM step state).mapError f =
      items.foldlM (fun state item => (step state item).mapError f) state := by
  induction items generalizing state with
  | nil => rfl
  | cons item rest ih =>
      rw [List.foldlM_cons, List.foldlM_cons, mapError_bind]
      exact bind_congr ih

/-! ### Folds -/

variable {step other : β → α → Except ε β}

theorem foldlM_congr {items : List α}
    (hstep : ∀ item ∈ items, ∀ state, step state item = other state item) (state : β) :
    items.foldlM step state = items.foldlM other state := by
  induction items generalizing state with
  | nil => rfl
  | cons item rest ih =>
      rw [List.forall_mem_cons] at hstep
      rw [List.foldlM_cons, List.foldlM_cons, hstep.1]
      exact bind_congr fun next => ih hstep.2 next

theorem exists_ok_of_foldlM_eq_ok {items : List α} {state result : β}
    (hfold : items.foldlM step state = .ok result) :
    ∀ item ∈ items, ∃ before after, step before item = .ok after := by
  induction items generalizing state with
  | nil => simp
  | cons item rest ih =>
      rw [List.foldlM_cons] at hfold
      obtain ⟨next, hitem, hrest⟩ := bind_eq_ok_iff.mp hfold
      exact List.forall_mem_cons.mpr ⟨⟨state, next, hitem⟩, ih hrest⟩

/-- Where the state has no part in whether a step succeeds, a fold succeeds if every step does. -/
theorem exists_foldlM_eq_ok_iff {items : List α} {succeeds : α → Prop}
    (hstep : ∀ item ∈ items, ∀ state, (∃ next, step state item = .ok next) ↔ succeeds item)
    (state : β) :
    (∃ result, items.foldlM step state = .ok result) ↔ ∀ item ∈ items, succeeds item := by
  induction items generalizing state with
  | nil => simp [pure, Except.pure]
  | cons item rest ih =>
      rw [List.forall_mem_cons] at hstep
      rw [List.foldlM_cons, List.forall_mem_cons, ← hstep.1 state]
      constructor
      · rintro ⟨result, hfold⟩
        obtain ⟨next, hitem, hrest⟩ := bind_eq_ok_iff.mp hfold
        exact ⟨⟨next, hitem⟩, (ih hstep.2 next).mp ⟨result, hrest⟩⟩
      · rintro ⟨⟨next, hitem⟩, hall⟩
        obtain ⟨result, hrest⟩ := (ih hstep.2 next).mpr hall
        exact ⟨result, bind_eq_ok_iff.mpr ⟨next, hitem, hrest⟩⟩

/-- A fold fails with an item on which the step fails, after the items before it have succeeded. -/
theorem foldlM_eq_error_iff {items : List α} {state : β} {error : ε} :
    items.foldlM step state = .error error ↔
      ∃ before item after middle, items = before ++ item :: after ∧
        before.foldlM step state = .ok middle ∧ step middle item = .error error := by
  induction items generalizing state with
  | nil => simp [pure, Except.pure]
  | cons item rest ih =>
      rw [List.foldlM_cons, bind_eq_error_iff]
      constructor
      · rintro (hitem | ⟨next, hitem, hrest⟩)
        · exact ⟨[], item, rest, state, rfl, rfl, hitem⟩
        · obtain ⟨before, last, after, middle, rfl, hbefore, hlast⟩ := ih.mp hrest
          refine ⟨item :: before, last, after, middle, rfl, ?_, hlast⟩
          rw [List.foldlM_cons, hitem]
          exact hbefore
      · rintro ⟨before, last, after, middle, hitems, hbefore, hlast⟩
        cases before with
        | nil =>
            obtain ⟨rfl, rfl⟩ := List.cons.inj hitems
            cases hbefore
            exact Or.inl hlast
        | cons head before =>
            obtain ⟨rfl, rfl⟩ := List.cons.inj hitems
            rw [List.foldlM_cons] at hbefore
            obtain ⟨next, hitem, hbefore⟩ := bind_eq_ok_iff.mp hbefore
            exact Or.inr ⟨next, hitem, ih.mpr ⟨before, last, after, middle, rfl, hbefore, hlast⟩⟩

/-! ### Independent steps -/

variable {f : α → Except ε β}

theorem mapM_eq_ok_iff {items : List α} {results : List β} :
    items.mapM f = .ok results ↔
      List.Forall₂ (fun item result => f item = .ok result) items results := by
  induction items generalizing results with
  | nil => simp [pure, Except.pure, eq_comm]
  | cons item rest ih =>
      simp only [List.mapM_cons, bind_eq_ok_iff, List.forall₂_cons_left_iff, ih]
      constructor
      · rintro ⟨result, hitem, others, hrest, hpure⟩
        exact ⟨result, others, hitem, hrest, (Except.ok.inj hpure).symm⟩
      · rintro ⟨result, others, hitem, hrest, rfl⟩
        exact ⟨result, hitem, others, hrest, rfl⟩

theorem exists_forall₂_iff {R : α → β → Prop} {items : List α} :
    (∃ results, List.Forall₂ R items results) ↔ ∀ item ∈ items, ∃ result, R item result := by
  induction items with
  | nil => simp
  | cons item rest ih =>
      rw [List.forall_mem_cons, ← ih]
      constructor
      · rintro ⟨results, hresults⟩
        cases hresults with
        | cons hitem hrest => exact ⟨⟨_, hitem⟩, _, hrest⟩
      · rintro ⟨⟨result, hitem⟩, results, hrest⟩
        exact ⟨result :: results, .cons hitem hrest⟩

theorem forall₂_imp_of_mem {R S : α → β → Prop} {items : List α} {results : List β}
    (himp : ∀ item ∈ items, ∀ result, R item result → S item result)
    (hitems : List.Forall₂ R items results) : List.Forall₂ S items results := by
  have hboth := (List.forall₂_and_left items results).mpr ⟨himp, hitems⟩
  exact hboth.imp fun item result hitem => hitem.1 result hitem.2

theorem exists_mapM_eq_ok_iff {items : List α} :
    (∃ results, items.mapM f = .ok results) ↔ ∀ item ∈ items, ∃ result, f item = .ok result := by
  simp only [mapM_eq_ok_iff, exists_forall₂_iff]

/-- The items before the one that fails have all succeeded, each by itself. -/
theorem mapM_eq_error_iff {items : List α} {error : ε} :
    items.mapM f = .error error ↔
      ∃ before item after, items = before ++ item :: after ∧
        (∀ earlier ∈ before, ∃ result, f earlier = .ok result) ∧ f item = .error error := by
  induction items with
  | nil => simp [pure, Except.pure]
  | cons item rest ih =>
      rw [List.mapM_cons, bind_eq_error_iff]
      constructor
      · rintro (hitem | ⟨result, hitem, hrest⟩)
        · exact ⟨[], item, rest, rfl, by simp, hitem⟩
        · have hrest : rest.mapM f = .error error := by
            rcases bind_eq_error_iff.mp hrest with hrest | ⟨_, _, hpure⟩
            · exact hrest
            · cases hpure
          obtain ⟨before, last, after, rfl, hbefore, hlast⟩ := ih.mp hrest
          exact ⟨item :: before, last, after, rfl,
            List.forall_mem_cons.mpr ⟨⟨result, hitem⟩, hbefore⟩, hlast⟩
      · rintro ⟨before, last, after, hitems, hbefore, hlast⟩
        cases before with
        | nil =>
            obtain ⟨rfl, rfl⟩ := List.cons.inj hitems
            exact Or.inl hlast
        | cons head before =>
            obtain ⟨rfl, rfl⟩ := List.cons.inj hitems
            obtain ⟨⟨result, hitem⟩, hbefore⟩ := List.forall_mem_cons.mp hbefore
            have hrest := ih.mpr ⟨before, last, after, rfl, hbefore, hlast⟩
            exact Or.inr ⟨result, hitem, bind_eq_error_iff.mpr (Or.inl hrest)⟩

end Reshape
