import Mathlib.Data.List.Induction
import Reshape.Proofs.Path.Join

/-!
# Paths that cursors show

A cursor shows the segments that it has walked, keys as they are and indices in brackets. Where every
key is a bare key, what it shows is written in the grammar of paths: each segment shown is an item, and
it is put behind the text before it as one text of a path behind another.
-/

namespace Reshape

open Reshape.Path

namespace Segment

/-- As it is shown, the segment is an item of the grammar. -/
def IsShowable : Segment → Prop
  | .key name => name ≠ "" ∧ ∀ c ∈ name.toList, IsPlain c
  | .index position => position < 2 ^ 64

theorem isIndexText_toDigits {position : Nat} (hword : position < 2 ^ 64) :
    IsIndexText (Nat.toDigits 10 position) position :=
  ⟨[], [], Nat.toDigits 10 position, [], by simp, nofun, nofun, Or.inl rfl, Nat.toDigits_ne_nil,
    Text.isDigit_toDigits position, Nat.ofDigitChars_ten_toDigits, hword⟩

theorem IsShowable.item {segment : Segment} (hsegment : segment.IsShowable) :
    Item segment.text.toList segment := by
  cases segment with
  | key name =>
      obtain ⟨hne, hplain⟩ := hsegment
      have hkey := BareKey.intro (mt String.toList_eq_nil_iff.mp hne) hplain
      rw [String.ofList_toList] at hkey
      exact .key hkey
  | index position =>
      have hdigits : ∀ c ∈ Nat.toDigits 10 position, c.isDigit = true :=
        Text.isDigit_toDigits position
      have htext : (Segment.index position).text.toList =
          '[' :: (Nat.toDigits 10 position ++ [']']) := by
        rw [← Text.toList_toString_nat, text, String.toList_append, String.toList_append,
          List.append_assoc]
        rfl
      rw [htext]
      refine .bracket (.index ?_ ?_ (isIndexText_toDigits hsegment))
      · intro hmem
        exact absurd (hdigits _ hmem) (by decide)
      · intro c hhead hquote
        have hdigit := hdigits c (List.mem_of_head? hhead)
        rcases hquote with rfl | rfl <;> exact absurd hdigit (by decide)

theorem IsShowable.written {segment : Segment} (hsegment : segment.IsShowable) :
    Written segment.text.toList [segment] := by
  have hwritten := Written.path hsegment.item .nil
  rwa [List.append_nil] at hwritten

end Segment

namespace Cursor

theorem render_append_singleton (walked : List String) (shown : String) :
    render (walked ++ [shown]) =
      if render walked = "" then shown else joinText (render walked) shown := by
  rw [render, List.foldl_append]
  change (if (render walked).isEmpty || shown.toList.head? == some '[' then render walked ++ shown
    else render walked ++ "." ++ shown) = _
  unfold joinText
  by_cases hempty : render walked = ""
  · simp [hempty]
  · simp [hempty]

/-- The segments shown are written in the grammar. -/
theorem written_render {segments : List Segment}
    (hsegments : ∀ segment ∈ segments, segment.IsShowable) :
    Written (render (segments.map Segment.text)).toList segments := by
  induction segments using List.reverseRecOn with
  | nil => exact .root
  | append_singleton segments segment ih =>
      rw [List.forall_mem_append, List.forall_mem_singleton] at hsegments
      have hbefore := ih hsegments.1
      have hshown := hsegments.2.written
      rw [List.map_append, List.map_singleton, render_append_singleton]
      split
      · next hempty =>
          rw [hempty] at hbefore
          rw [hbefore.unique .root]
          exact hshown
      · next hne =>
          rw [toList_joinText]
          refine hbefore.append (mt String.toList_eq_nil_iff.mp hne) (fun hnil => ?_) hshown
          rw [hnil] at hshown
          cases hshown.unique .root

/-! ### Walking -/

variable {cursor next reached : Cursor} {segment : Segment} {segments : List Segment}
  {error : PathError}

theorem step_eq_ok_iff :
    cursor.step segment = .ok next ↔
      cursor.value.step? segment = some next.value ∧
        next.walked = cursor.walked ++ [segment.text] := by
  rw [step]
  obtain ⟨value, walked⟩ := next
  cases cursor.value.step? segment <;> simp [eq_comm]

theorem step_eq_error_iff :
    cursor.step segment = .error error ↔
      cursor.value.step? segment = none ∧
        error = .notFound (render (cursor.walked ++ [segment.text])) := by
  rw [step]
  cases cursor.value.step? segment <;> simp [eq_comm]

theorem foldlM_step_eq_ok_iff :
    segments.foldlM step cursor = .ok reached ↔
      segments.foldlM Value.step? cursor.value = some reached.value ∧
        reached.walked = cursor.walked ++ segments.map Segment.text := by
  induction segments generalizing cursor with
  | nil =>
      obtain ⟨value, walked⟩ := reached
      obtain ⟨start, before⟩ := cursor
      simp [pure, Except.pure, eq_comm]
  | cons segment rest ih =>
      rw [List.foldlM_cons, List.foldlM_cons, bind_eq_ok_iff]
      simp only [ih, step_eq_ok_iff]
      constructor
      · rintro ⟨⟨value, walked⟩, ⟨hstep, rfl⟩, hrest, hwalked⟩
        rw [hstep, hwalked, List.append_assoc]
        exact ⟨hrest, rfl⟩
      · rintro ⟨hfold, hwalked⟩
        obtain ⟨value, hstep, hrest⟩ := Option.bind_eq_some_iff.mp hfold
        refine ⟨⟨value, cursor.walked ++ [segment.text]⟩, ⟨hstep, rfl⟩, hrest, ?_⟩
        rw [hwalked, List.append_assoc]
        rfl

/-- What is shown as not found is the first segment that leads nowhere, behind those before it. -/
theorem foldlM_step_eq_error_iff :
    segments.foldlM step cursor = .error error ↔
      ∃ before segment after value, segments = before ++ segment :: after ∧
        before.foldlM Value.step? cursor.value = some value ∧ value.step? segment = none ∧
        error = .notFound (render (cursor.walked ++ (before ++ [segment]).map Segment.text)) := by
  rw [foldlM_eq_error_iff]
  simp only [foldlM_step_eq_ok_iff, step_eq_error_iff, List.map_append, List.map_singleton]
  constructor
  · rintro ⟨before, segment, after, middle, hsplit, ⟨hvalue, hwalked⟩, hnone, rfl⟩
    rw [hwalked, List.append_assoc]
    exact ⟨before, segment, after, middle.value, hsplit, hvalue, hnone, rfl⟩
  · rintro ⟨before, segment, after, value, hsplit, hvalue, hnone, rfl⟩
    rw [← List.append_assoc]
    exact ⟨before, segment, after, ⟨value, _⟩, hsplit, ⟨hvalue, rfl⟩, hnone, rfl⟩

end Cursor

/-- Walking along segments from a value leads somewhere. -/
def Value.Resolves (value : Value) (segments : List Segment) : Prop :=
  ∃ found, segments.foldlM Value.step? value = some found

namespace Value

variable {value : Value} {segments shorter : List Segment}

theorem Resolves.of_prefix (hresolves : value.Resolves segments) (hfront : shorter <+: segments) :
    value.Resolves shorter := by
  obtain ⟨rest, rfl⟩ := hfront
  obtain ⟨found, hfound⟩ := hresolves
  rw [List.foldlM_append] at hfound
  obtain ⟨middle, hmiddle, -⟩ := Option.bind_eq_some_iff.mp hfound
  exact ⟨middle, hmiddle⟩

theorem not_resolves_append_singleton {segment : Segment} {middle : Value}
    (hsegments : segments.foldlM step? value = some middle) (hnone : middle.step? segment = none) :
    ¬ value.Resolves (segments ++ [segment]) := by
  rintro ⟨found, hfound⟩
  rw [List.foldlM_append, hsegments] at hfound
  change [segment].foldlM step? middle = some found at hfound
  rw [List.foldlM_cons, hnone] at hfound
  cases hfound

end Value

namespace Path

/-- What is shown of plain segments is read as these segments. -/
theorem parse_render {segments : List Segment}
    (hsegments : ∀ segment ∈ segments, segment.IsShowable) :
    Path.parse (Cursor.render (segments.map Segment.text)) =
      .ok ⟨Cursor.render (segments.map Segment.text), segments⟩ :=
  parse_eq_ok_iff.mpr ⟨rfl, Cursor.written_render hsegments⟩

end Path

/-- **Shown paths lead back to the places they name.** Along a path whose keys are bare keys, what the
cursor shows at the end is read as the segments of the path, and leads to where the cursor stands. What
is shown as not found is read as the shortest front of the path that leads nowhere. -/
theorem Cursor.navigate_shows_path {text : String} {path : Path} (hparse : Path.parse text = .ok path)
    (hkeys : ∀ name, Segment.key name ∈ path.segments →
      name ≠ "" ∧ ∀ c ∈ name.toList, c ≠ '.' ∧ c ≠ '[' ∧ c ≠ ']') (value : Value) :
    (∀ reached, (Cursor.start value).navigate path = .ok reached →
      ∃ read, Path.parse reached.pathText = .ok read ∧ read.segments = path.segments ∧
        value.get? read = some reached.value) ∧
    ∀ error, (Cursor.start value).navigate path = .error error →
      ∃ shown read, error = .notFound shown ∧ Path.parse shown = .ok read ∧
        read.segments <+: path.segments ∧ ¬ value.Resolves read.segments ∧
        ∀ shorter, shorter <+: path.segments → shorter.length < read.segments.length →
          value.Resolves shorter := by
  have hsegments : ∀ segment ∈ path.segments, segment.IsShowable := by
    intro segment hmem
    cases segment with
    | key name => exact hkeys name hmem
    | index position => exact (parse_eq_ok_iff.mp hparse).2.lt_two_pow hmem
  constructor
  · intro reached hreached
    obtain ⟨hfound, hwalked⟩ := foldlM_step_eq_ok_iff.mp hreached
    refine ⟨⟨reached.pathText, path.segments⟩, ?_, rfl, hfound⟩
    rw [pathText, hwalked]
    exact Path.parse_render hsegments
  · intro error herror
    obtain ⟨before, segment, after, middle, hsplit, hmiddle, hnone, rfl⟩ :=
      foldlM_step_eq_error_iff.mp herror
    have hbefore : before <+: path.segments := hsplit ▸ List.prefix_append before _
    have hfront : before ++ [segment] <+: path.segments :=
      ⟨after, by rw [hsplit, List.append_assoc, List.singleton_append]⟩
    have hread := parse_render fun shown hmem => hsegments shown (hfront.subset hmem)
    refine ⟨_, _, rfl, hread, hfront, Value.not_resolves_append_singleton hmiddle hnone, ?_⟩
    intro shorter hshorter hlt
    have hle : shorter.length ≤ before.length := by
      rw [List.length_append, List.length_singleton] at hlt
      exact Nat.le_of_lt_succ hlt
    have hresolves : value.Resolves before := ⟨middle, hmiddle⟩
    exact hresolves.of_prefix (List.prefix_of_prefix_length_le hshorter hbefore hle)

/-- Quotes inside keys and a bracket in front are shown as they are read again, along a path that leads
somewhere and along the front of it that leads nowhere. -/
theorem Cursor.navigate_shows_path_quotes :
    let text := "[ +0 ]['it\"s'][1].end"
    let path : Path := ⟨text, [.index 0, .key "it\"s", .index 1, .key "end"]⟩
    let reaching : Value := .array [.object [("it\"s", .object [("1", .object [("end", .null)])])]]
    let lacking : Value := .array [.object [("it\"s", .array [.null])]]
    Path.parse text = .ok path ∧
      (Cursor.start reaching).navigate path = .ok ⟨.null, ["[0]", "it\"s", "[1]", "end"]⟩ ∧
      (∃ read, Path.parse "[0].it\"s[1].end" = .ok read ∧ read.segments = path.segments ∧
        reaching.get? read = some .null) ∧
      (Cursor.start lacking).navigate path = .error (.notFound "[0].it\"s[1]") ∧
      ∃ read, Path.parse "[0].it\"s[1]" = .ok read ∧ read.segments <+: path.segments ∧
        ¬ lacking.Resolves read.segments := by
  intro text path reaching lacking
  have hparse : Path.parse text = .ok path := by decide
  have hkeys : ∀ name, Segment.key name ∈ path.segments →
      name ≠ "" ∧ ∀ c ∈ name.toList, c ≠ '.' ∧ c ≠ '[' ∧ c ≠ ']' := by
    intro name hmem
    have hname : name = "it\"s" ∨ name = "end" := by simpa [path] using hmem
    rcases hname with rfl | rfl <;> simp
  have hreaches : (Cursor.start reaching).navigate path =
      .ok ⟨.null, ["[0]", "it\"s", "[1]", "end"]⟩ := rfl
  have hlacks : (Cursor.start lacking).navigate path = .error (.notFound "[0].it\"s[1]") := rfl
  obtain ⟨hfound, -⟩ := navigate_shows_path hparse hkeys reaching
  obtain ⟨-, hlost⟩ := navigate_shows_path hparse hkeys lacking
  obtain ⟨shown, read, hshown, hread, hfront, hnowhere, -⟩ := hlost _ hlacks
  obtain rfl : "[0].it\"s[1]" = shown := PathError.notFound.inj hshown
  exact ⟨hparse, hreaches, hfound _ hreaches, hlacks, read, hread, hfront, hnowhere⟩

end Reshape
