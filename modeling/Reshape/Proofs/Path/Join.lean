import Reshape.Path.Cursor
import Reshape.Proofs.Path.Reader

/-!
# Joined paths

Two texts of paths that are not empty make one path when they are put together, by a dot or, before
a bracket, directly. The grammar has this built in: what follows the first item of a path is a list
of tails, and the second text as a whole is such a list once its dot stands before it.
-/

namespace Reshape

namespace Path

/-- One text after another, with a dot between them unless the second begins with a bracket. -/
def joinText (first second : String) : String :=
  if second.toList.head? = some '[' then first ++ second else first ++ "." ++ second

/-- A text as it goes on from an item that is complete. -/
def continuation (text : List Char) : List Char :=
  if text.head? = some '[' then text else '.' :: text

theorem toList_joinText (first second : String) :
    (joinText first second).toList = first.toList ++ continuation second.toList := by
  unfold joinText continuation
  split
  · exact String.toList_append
  · rw [String.toList_append, String.toList_append, List.append_assoc]
    rfl

section Grammar

variable {text more : List Char} {segment : Segment} {segments others : List Segment}

theorem Tails.append (htext : Tails text segments) (hmore : Tails more others) :
    Tails (text ++ more) (segments ++ others) := by
  induction htext with
  | nil => exact hmore
  | cons htail _ ih =>
      rw [List.append_assoc]
      exact .cons htail ih

theorem Written.append_tails (hne : text ≠ []) (htext : Written text segments)
    (hmore : Tails more others) : Written (text ++ more) (segments ++ others) := by
  cases htext with
  | root => exact absurd rfl hne
  | path hitem htails =>
      rw [List.append_assoc]
      exact .path hitem (htails.append hmore)

/-- An item may follow another one: a bracket as it is, a key behind a dot. -/
theorem Item.tail (hitem : Item text segment) (more : List Char) :
    ∃ tail, continuation (text ++ more) = tail ++ more ∧ Tail tail segment := by
  cases hitem with
  | key hkey =>
      obtain ⟨hne, hplain⟩ := hkey
      obtain ⟨c, rest, rfl⟩ := List.exists_cons_of_ne_nil hne
      have hopen : c ≠ '[' := (hplain c List.mem_cons_self).2.1
      refine ⟨'.' :: c :: rest, ?_, .key (.intro hne hplain)⟩
      rw [List.cons_append, continuation, if_neg (by simpa using hopen)]
      rfl
  | bracket hbracket =>
      refine ⟨text, ?_, .bracket hbracket⟩
      rw [continuation, if_pos (by cases hbracket <;> rfl)]

theorem Written.tails (hne : text ≠ []) (htext : Written text segments) :
    Tails (continuation text) segments := by
  cases htext with
  | root => exact absurd rfl hne
  | @path item more segment others hitem htails =>
      obtain ⟨tail, hsplit, htail⟩ := hitem.tail more
      rw [hsplit]
      exact .cons htail htails

theorem Written.append (hne : text ≠ []) (hmorene : more ≠ []) (htext : Written text segments)
    (hmore : Written more others) : Written (text ++ continuation more) (segments ++ others) :=
  htext.append_tails hne (hmore.tails hmorene)

end Grammar

end Path

/-! ### Reading along segments after segments -/

theorem Value.get?_of_segments_eq_append {path first second : Path}
    (hsegments : path.segments = first.segments ++ second.segments) (value : Value) :
    value.get? path = (value.get? first).bind fun inner => inner.get? second := by
  rw [get?, hsegments, List.foldlM_append]
  rfl

theorem Cursor.navigate_of_segments_eq_append {path first second : Path}
    (hsegments : path.segments = first.segments ++ second.segments) (cursor : Cursor) :
    cursor.navigate path = cursor.navigate first >>= fun reached => reached.navigate second := by
  rw [navigate, hsegments, List.foldlM_append]
  rfl

namespace Path

/-- **Texts of paths compose.** Joined, two of them that are not empty are read as the segments of
the first and then those of the second. To read or to navigate along the joined path is to do so
along the first and go on along the second from where that leads, with the same failure. -/
theorem parse_joinText {first second : String} {path more : Path} (hfirst : first ≠ "")
    (hsecond : second ≠ "") (hpath : Path.parse first = .ok path)
    (hmore : Path.parse second = .ok more) :
    ∃ joined, Path.parse (joinText first second) = .ok joined ∧
      joined.segments = path.segments ++ more.segments ∧
      (∀ value : Value, value.getAt (joinText first second) =
        value.getAt first >>= fun
          | some inner => inner.getAt second
          | none => .ok none) ∧
      ∀ cursor : Cursor, cursor.navigate joined =
        cursor.navigate path >>= fun reached => reached.navigate more := by
  have hwritten : Written (joinText first second).toList (path.segments ++ more.segments) := by
    rw [toList_joinText]
    exact (parse_eq_ok_iff.mp hpath).2.append (mt String.toList_eq_nil_iff.mp hfirst)
      (mt String.toList_eq_nil_iff.mp hsecond) (parse_eq_ok_iff.mp hmore).2
  have hjoined : Path.parse (joinText first second) =
      .ok ⟨joinText first second, path.segments ++ more.segments⟩ :=
    parse_eq_ok_iff.mpr ⟨rfl, hwritten⟩
  refine ⟨_, hjoined, rfl, fun value => ?_, Cursor.navigate_of_segments_eq_append rfl⟩
  simp only [Value.getAt, hjoined, hpath, hmore, Except.map]
  rw [Value.get?_of_segments_eq_append rfl value]
  cases value.get? path <;> rfl

/-- A quoted key that ends in a dot, before a bracket with an index. -/
theorem parse_joinText_bracket :
    let first := "rows['x].']"
    let second := "[ +1 ].name"
    ∃ joined, Path.parse "rows['x].'][ +1 ].name" = .ok joined ∧
      joined.segments = [.key "rows", .key "x].", .index 1, .key "name"] ∧
      ∀ value : Value, value.getAt "rows['x].'][ +1 ].name" =
        value.getAt first >>= fun
          | some inner => inner.getAt second
          | none => .ok none := by
  intro first second
  have hpath : Path.parse first = .ok ⟨first, [.key "rows", .key "x]."]⟩ := by
    decide
  have hmore : Path.parse second = .ok ⟨second, [.index 1, .key "name"]⟩ := by
    decide
  have htext : joinText first second = "rows['x].'][ +1 ].name" := by
    decide
  obtain ⟨joined, hjoined, hsegments, hget, -⟩ :=
    parse_joinText (by decide) (by decide) hpath hmore
  rw [htext] at hjoined hget
  exact ⟨joined, hjoined, hsegments, hget⟩

end Path

end Reshape
