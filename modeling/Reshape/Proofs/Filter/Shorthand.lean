import Reshape.Proofs.Filter.Selection
import Reshape.Proofs.Path.Reader
import Reshape.Proofs.Value.Match
import Reshape.Registry

/-!
# Two ways to ask for a member

A pattern for a member at some depth is written as an object that holds one object after another, or
as a pair of a path and the pattern. The first is held against a value by descending into the pattern,
the second by reading along the path: both go through the same members, unless a name could also be
the position of an item.
-/

namespace Reshape

/-- The pattern for what lies behind some members, each inside the one before it. -/
def Value.nested (names : List String) (pattern : Value) : Value :=
  names.foldr (fun name inner => .object [(name, inner)]) pattern

/-- The path along some members. -/
def Path.dotted (names : List String) : String :=
  ".".intercalate names

/-- A name that stands in a path as it is, and for a member only. -/
structure IsMemberName (name : String) : Prop where
  ne_empty : name ≠ ""
  plain : ∀ c ∈ name.toList, Path.IsPlain c
  not_index : (Segment.key name).index? = none

/-! ### Reading along the members -/

section

variable {name : String} {names : List String}

theorem IsMemberName.bareKey (hname : IsMemberName name) :
    Path.BareKey name.toList (.key name) := by
  have hkey := Path.BareKey.intro (mt String.toList_eq_nil_iff.mp hname.ne_empty) hname.plain
  rwa [String.ofList_toList] at hkey

theorem IsMemberName.step?_eq_some_iff (hname : IsMemberName name) {value found : Value} :
    value.step? (.key name) = some found ↔
      ∃ fields, value = .object fields ∧ Fields.get? fields name = some found := by
  cases value <;> simp [Value.step?, Segment.keyName, hname.not_index]

theorem Path.tails_keys (hnames : ∀ name ∈ names, IsMemberName name) :
    Tails (names.flatMap fun name => '.' :: name.toList) (names.map .key) := by
  induction names with
  | nil => exact .nil
  | cons name rest ih =>
      rw [List.forall_mem_cons] at hnames
      exact .cons (.key hnames.1.bareKey) (ih hnames.2)

theorem Path.toList_dotted (name : String) (rest : List String) :
    (dotted (name :: rest)).toList =
      name.toList ++ rest.flatMap fun name => '.' :: name.toList := by
  unfold dotted
  induction rest generalizing name with
  | nil => simp
  | cons next rest ih =>
      rw [String.intercalate_cons_cons, String.toList_append, String.toList_append, ih,
        List.append_assoc]
      rfl

theorem Path.parse_dotted (hne : names ≠ []) (hnames : ∀ name ∈ names, IsMemberName name) :
    parse (dotted names) = .ok ⟨dotted names, names.map .key⟩ := by
  obtain ⟨name, rest, rfl⟩ := List.exists_cons_of_ne_nil hne
  rw [List.forall_mem_cons] at hnames
  refine parse_eq_ok_iff.mpr ⟨rfl, ?_⟩
  rw [toList_dotted]
  exact .path (.key hnames.1.bareKey) (tails_keys hnames.2)

/-- The pattern and the path lose a member at the same time. -/
theorem Value.isMatch_nested_iff (hnames : ∀ name ∈ names, IsMemberName name) (pattern : Value)
    {value : Value} :
    value.isMatch (nested names pattern) = true ↔
      ∃ found, (names.map .key).foldlM step? value = some found ∧
        found.isMatch pattern = true := by
  induction names generalizing value with
  | nil => simp [nested]
  | cons name rest ih =>
      rw [List.forall_mem_cons] at hnames
      have hnested : nested (name :: rest) pattern = .object [(name, nested rest pattern)] := rfl
      rw [hnested, isMatch_object_iff, List.map_cons, List.foldlM_cons]
      simp only [List.forall_mem_singleton, ih hnames.2, Option.bind_eq_bind, Option.bind_eq_some_iff,
        hnames.1.step?_eq_some_iff]
      constructor
      · rintro ⟨fields, hvalue, entry, hentry, found, hrest, hmatch⟩
        exact ⟨found, ⟨entry, ⟨fields, hvalue, hentry⟩, hrest⟩, hmatch⟩
      · rintro ⟨found, ⟨entry, ⟨fields, hvalue, hentry⟩, hrest⟩, hmatch⟩
        exact ⟨fields, hvalue, entry, hentry, found, hrest, hmatch⟩

end

/-! ### The filters -/

namespace Filter

variable {iteratee other : Iteratee} {args others : List Arg}

theorem findEntry_congr (hon : iteratee.on = other.on) (entries : List (Value × Value)) :
    findEntry iteratee entries = findEntry other entries := by
  induction entries with
  | nil => rfl
  | cons entry rest ih =>
      rw [findEntry, findEntry, test_eq, test_eq, hon, ih]

/-- The filters know an iteratee by what it gives on the entries. -/
theorem select_congr (hiteratee : Iteratee.ofArg args 0 = .ok iteratee)
    (hother : Iteratee.ofArg others 0 = .ok other) (hon : iteratee.on = other.on)
    (input source : Value) :
    map input source args = map input source others ∧
      filter input source args = filter input source others ∧
      find input source args = find input source others := by
  rw [map_of_ofArg hiteratee, map_of_ofArg hother, filter_of_ofArg hiteratee,
    filter_of_ofArg hother, find_of_ofArg hiteratee, find_of_ofArg hother, hon]
  exact ⟨rfl, rfl, findEntry_congr hon input.entries⟩

/-- **An object of objects and a pair of path and pattern agree.** A value matches the object exactly
if the path leads to something in it that matches the pattern, and the filters give the same result
with both, on any collection. -/
theorem nested_eq_pair {names : List String} (hne : names ≠ [])
    (hnames : ∀ name ∈ names, IsMemberName name) (pattern : Value) :
    ∃ path, Path.parse (Path.dotted names) = .ok path ∧
      (∀ item : Value, item.isMatch (Value.nested names pattern) = true ↔
        ∃ found, item.get? path = some found ∧ found.isMatch pattern = true) ∧
      ∀ name ∈ ["find", "findWhere", "filter", "map"], ∀ input source,
        Registry.standard.invoke name input source [.value (.nested names pattern)] =
          Registry.standard.invoke name input source
            [.value (.array [.string (Path.dotted names), pattern])] := by
  let path : Path := ⟨Path.dotted names, names.map .key⟩
  have hparse : Path.parse (Path.dotted names) = .ok path := Path.parse_dotted hne hnames
  have hmatch : ∀ item : Value, item.isMatch (Value.nested names pattern) = true ↔
      ∃ found, item.get? path = some found ∧ found.isMatch pattern = true :=
    fun item => Value.isMatch_nested_iff hnames pattern
  have hobject : Iteratee.ofArg [.value (.nested names pattern)] 0 =
      .ok (.matching (.nested names pattern)) := by
    obtain ⟨name, rest, rfl⟩ := List.exists_cons_of_ne_nil hne
    rfl
  have hpair : Iteratee.ofArg [.value (.array [.string (Path.dotted names), pattern])] 0 =
      .ok (.propertyMatching path pattern) := by
    change (parsePath (Path.dotted names)).map _ = _
    rw [parsePath, hparse]
    rfl
  have hon : (Iteratee.matching (.nested names pattern)).on =
      (Iteratee.propertyMatching path pattern).on := by
    funext ⟨item, key⟩
    have hflag : item.isMatch (.nested names pattern) =
        (item.get? path).any fun found => found.isMatch pattern := by
      rw [Bool.eq_iff_iff, hmatch, Option.any_eq_true]
    exact congrArg (fun flag => Except.ok (Value.bool flag)) hflag
  refine ⟨path, hparse, hmatch, fun name hname input source => ?_⟩
  obtain ⟨hmap, hfilter, hfind⟩ := select_congr hobject hpair hon input source
  simp only [List.mem_cons, List.not_mem_nil, or_false] at hname
  rcases hname with rfl | rfl | rfl | rfl
  · exact hfind
  · exact hfilter
  · exact hfilter
  · exact hmap

/-- Digits that are no index, asked for in a text, in an array that has an item there, in an object
and in nothing. -/
theorem nested_eq_pair_leading_zero :
    let names := ["address", "01"]
    let pattern : Value := .array [.bool true]
    let wanted : Value := .object [("address", .object [("01", .array [.null, .bool true])])]
    let input : Value := .array
      [.string "address", .object [("address", .array [.null, .array [.bool true]])], wanted,
        .object [("address", .null)]]
    names ≠ [] ∧ (∀ name ∈ names, IsMemberName name) ∧
      Value.nested names pattern = .object [("address", .object [("01", pattern)])] ∧
      Path.dotted names = "address.01" ∧
      Registry.standard.invoke "filter" input .null [.value (.nested names pattern)] =
        .ok (.array [wanted]) ∧
      Registry.standard.invoke "filter" input .null
        [.value (.array [.string "address.01", pattern])] = .ok (.array [wanted]) := by
  intro names pattern wanted input
  have hnames : ∀ name ∈ names, IsMemberName name := by
    simp only [names, List.forall_mem_cons]
    exact ⟨⟨by decide, by simp [Path.IsPlain], by decide⟩,
      ⟨by decide, by simp [Path.IsPlain], by decide⟩, List.forall_mem_nil _⟩
  have hdotted : Path.dotted names = "address.01" := by decide
  have hobject : Registry.standard.invoke "filter" input .null [.value (.nested names pattern)] =
      .ok (.array [wanted]) := rfl
  obtain ⟨path, -, -, hinvoke⟩ := nested_eq_pair (by decide) hnames pattern
  have hpair := hinvoke "filter" (by decide) input .null
  rw [hobject, hdotted] at hpair
  exact ⟨by decide, hnames, rfl, hdotted, hobject, hpair.symm⟩

end Filter

end Reshape
