import Reshape.Filter.Collection
import Reshape.Proofs.Except

/-!
# Selecting elements

Mapping, keeping and finding go over the entries of a collection with one iteratee. What is kept is
read off the results of the map, failures included, and what is found is the first of what is kept.
Finding alone stops early, so that it never meets a failure behind the element that it gives.
-/

namespace Reshape

def Iteratee.on (iteratee : Iteratee) (entry : Value × Value) : Outcome :=
  iteratee.apply entry.1 entry.2

namespace Filter

/-- The elements whose results count as true, in order. -/
def accepted (entries : List (Value × Value)) (results : List Value) : List Value :=
  ((entries.zip results).filter fun (_, result) => result.truthy).map fun (entry, _) => entry.1

/-- The iteratee has results for the first entries and fails on the next one. -/
def FailsBehind (iteratee : Iteratee) (entries before : List (Value × Value)) (results : List Value)
    (error : FilterError) : Prop :=
  ∃ entry after, entries = before ++ entry :: after ∧
    List.Forall₂ (fun earlier result => iteratee.on earlier = .ok result) before results ∧
    iteratee.on entry = .error error

section Entries

variable {iteratee : Iteratee} {entries before : List (Value × Value)} {results : List Value}
  {error : FilterError}

theorem accepted_cons (entry : Value × Value) (result : Value) :
    accepted (entry :: entries) (result :: results) =
      if result.truthy then entry.1 :: accepted entries results else accepted entries results := by
  cases htruthy : result.truthy <;> simp [accepted, htruthy]

theorem test_eq (iteratee : Iteratee) (entry : Value × Value) :
    iteratee.test entry.1 entry.2 = (iteratee.on entry).map Value.truthy :=
  rfl

theorem keepEntries_eq_map (iteratee : Iteratee) (entries : List (Value × Value)) :
    keepEntries iteratee entries = (entries.mapM iteratee.on).map (accepted entries) := by
  induction entries with
  | nil => rfl
  | cons entry rest ih =>
      rw [keepEntries, test_eq, ih, List.mapM_cons]
      cases iteratee.on entry with
      | error error => rfl
      | ok result =>
          cases rest.mapM iteratee.on with
          | error error => rfl
          | ok results =>
              change Except.ok _ = Except.ok (accepted (entry :: rest) (result :: results))
              rw [accepted_cons]

/-- Entries that all have results are passed over unless one of them is accepted. -/
theorem findEntry_append
    (hbefore : List.Forall₂ (fun earlier result => iteratee.on earlier = .ok result) before results)
    (rest : List (Value × Value)) :
    findEntry iteratee (before ++ rest) =
      match accepted before results with
      | item :: _ => .ok item
      | [] => findEntry iteratee rest := by
  induction hbefore with
  | nil => rfl
  | @cons entry result before results hentry _ ih =>
      rw [List.cons_append, findEntry, test_eq, hentry, accepted_cons]
      cases htruthy : result.truthy with
      | true => simp [Except.map, htruthy, bind, Except.bind, pure, Except.pure]
      | false => simpa [Except.map, htruthy, bind, Except.bind] using ih

theorem mapM_on_eq_error_iff :
    entries.mapM iteratee.on = .error error ↔
      ∃ before results, FailsBehind iteratee entries before results error := by
  rw [mapM_eq_error_iff]
  constructor
  · rintro ⟨before, entry, after, hentries, hbefore, hentry⟩
    obtain ⟨results, hresults⟩ := exists_forall₂_iff.mpr hbefore
    exact ⟨before, results, entry, after, hentries, hresults, hentry⟩
  · rintro ⟨before, results, entry, after, hentries, hresults, hentry⟩
    exact ⟨before, entry, after, hentries, exists_forall₂_iff.mp ⟨results, hresults⟩, hentry⟩

end Entries

/-! ### The filters -/

section Filters

variable {input source : Value} {args : List Arg} {iteratee : Iteratee} {error : FilterError}

theorem map_of_ofArg (hiteratee : Iteratee.ofArg args 0 = .ok iteratee) :
    map input source args = (input.entries.mapM iteratee.on).map Value.array := by
  rw [map, hiteratee]
  change (input.entries.mapM iteratee.on >>= fun results => pure (Value.array results)) = _
  cases input.entries.mapM iteratee.on <;> rfl

theorem filter_of_ofArg (hiteratee : Iteratee.ofArg args 0 = .ok iteratee) :
    filter input source args =
      (input.entries.mapM iteratee.on).map (Value.array ∘ accepted input.entries) := by
  rw [filter, hiteratee]
  change (keepEntries iteratee input.entries >>= fun kept => pure (Value.array kept)) = _
  rw [keepEntries_eq_map]
  cases input.entries.mapM iteratee.on <;> rfl

theorem find_of_ofArg (hiteratee : Iteratee.ofArg args 0 = .ok iteratee) :
    find input source args = findEntry iteratee input.entries := by
  rw [find, hiteratee]
  rfl

theorem select_of_ofArg_eq_error (input source : Value)
    (hiteratee : Iteratee.ofArg args 0 = .error error) :
    map input source args = .error error ∧ filter input source args = .error error ∧
      find input source args = .error error := by
  rw [map, filter, find, hiteratee]
  exact ⟨rfl, rfl, rfl⟩

end Filters

/-- **Mapping, keeping and finding agree.** Where the map has results, those elements are kept whose
results are true, in order, and where it fails, keeping fails alike. Of what is kept the first element
is found, or nothing. Where keeping fails, the first element accepted before the failure is found, and
without one finding fails alike. -/
theorem map_filter_find (input source : Value) (args : List Arg) :
    (∀ value, map input source args = .ok value →
      ∃ results, value = .array results ∧ results.length = input.entries.length ∧
        filter input source args = .ok (.array (accepted input.entries results))) ∧
    (∀ error, map input source args = .error error ↔ filter input source args = .error error) ∧
    (∀ value, filter input source args = .ok value →
      ∃ kept, value = .array kept ∧ find input source args = .ok (kept.head?.getD .null)) ∧
    ∀ error, filter input source args = .error error →
      (Iteratee.ofArg args 0 = .error error ∧ find input source args = .error error) ∨
      ∃ iteratee before results, Iteratee.ofArg args 0 = .ok iteratee ∧
        FailsBehind iteratee input.entries before results error ∧
        find input source args =
          match accepted before results with
          | item :: _ => .ok item
          | [] => .error error := by
  cases hiteratee : Iteratee.ofArg args 0 with
  | error fault =>
      obtain ⟨hmap, hfilter, hfind⟩ := select_of_ofArg_eq_error input source hiteratee
      rw [hmap, hfilter, hfind]
      refine ⟨nofun, fun error => Iff.rfl, nofun, fun error herror => ?_⟩
      cases herror
      exact Or.inl ⟨rfl, rfl⟩
  | ok iteratee =>
      rw [map_of_ofArg hiteratee, filter_of_ofArg hiteratee, find_of_ofArg hiteratee]
      refine ⟨fun value hmap => ?_, fun error => ?_, fun value hfilter => ?_, fun error hfilter => ?_⟩
      · obtain ⟨results, hresults, rfl⟩ := map_eq_ok_iff.mp hmap
        refine ⟨results, rfl, (mapM_eq_ok_iff.mp hresults).length_eq.symm, ?_⟩
        rw [hresults]
        rfl
      · rw [map_eq_error_iff, map_eq_error_iff]
      · obtain ⟨results, hresults, rfl⟩ := map_eq_ok_iff.mp hfilter
        refine ⟨accepted input.entries results, rfl, ?_⟩
        have hfind := findEntry_append (mapM_eq_ok_iff.mp hresults) []
        rw [List.append_nil] at hfind
        rw [hfind]
        cases accepted input.entries results <;> rfl
      · obtain ⟨before, results, hfails⟩ := mapM_on_eq_error_iff.mp (map_eq_error_iff.mp hfilter)
        refine Or.inr ⟨iteratee, before, results, rfl, hfails, ?_⟩
        obtain ⟨entry, after, hentries, hbefore, hentry⟩ := hfails
        have hstop : findEntry iteratee (entry :: after) = .error error := by
          rw [findEntry, test_eq, hentry]
          rfl
        rw [hentries, findEntry_append hbefore, hstop]

/-- The members of an object under a callback that refuses nothing as its element: the text is found
before the callback has failed. -/
theorem map_filter_find_early :
    let input : Value := .object [("zero", .integer 0), ("text", .string "x"), ("none", .null)]
    let refuses : Callback
      | .null :: _ => .error (.custom "nothing")
      | items => .ok (items.headD .null)
    map input .null [.callback refuses] = .error (.custom "nothing") ∧
      filter input .null [.callback refuses] = .error (.custom "nothing") ∧
      find input .null [.callback refuses] = .ok (.string "x") ∧
      map input .null [] = .ok (.array [.integer 0, .string "x", .null]) ∧
      filter input .null [] = .ok (.array [.string "x"]) ∧
      find input .null [] = .ok (.string "x") := by
  intro input refuses
  obtain ⟨-, hfails, -, -⟩ := map_filter_find input .null [.callback refuses]
  obtain ⟨hkeeps, -, hfinds, -⟩ := map_filter_find input .null []
  have hrefused : map input .null [.callback refuses] = .error (.custom "nothing") := rfl
  have hmap : map input .null [] = .ok (.array [.integer 0, .string "x", .null]) := rfl
  obtain ⟨results, hresults, -, hfilter⟩ := hkeeps _ hmap
  obtain rfl := Value.array.inj hresults
  obtain ⟨kept, hkept, hfind⟩ := hfinds _ hfilter
  obtain rfl := Value.array.inj hkept
  exact ⟨hrefused, (hfails _).mp hrefused, rfl, hmap, hfilter, hfind⟩

end Filter

end Reshape
