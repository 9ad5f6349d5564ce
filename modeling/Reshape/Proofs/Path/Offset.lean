import Reshape.Proofs.Path.Reader

/-!
# Where a path goes wrong

Four of the faults of a path carry an offset. It is the place of the first character with which the
text has left all paths: what stands before it can still be completed. Not every place that the
reader gets to is of this kind, since an index may be beyond repair long before its bracket closes.
But offsets are reported outside brackets only, where one more character is always enough.
-/

namespace Reshape.Path

/-- The offset that a fault carries. -/
def Fault.offset? : Fault → Option Nat
  | .emptySegment offset | .emptyBeforeBracket offset => some offset
  | .strayBracket offset | .missingSeparator offset => some offset
  | .trailingDot | .unterminatedQuote | .unclosedQuote | .unclosedBracket | .invalidIndex _ => none

/-- The characters that a fault with an offset is found at. -/
def Fault.Blames : Fault → Char → Prop
  | .emptySegment _, c => c = '.'
  | .emptyBeforeBracket _, c => c = '['
  | .strayBracket _, c => c = ']'
  | .missingSeparator _, c => IsPlain c
  | _, _ => False

/-- Places that no bracket is open at. -/
def Place.IsOutside : Place → Prop
  | .start | .afterDot | .inKey _ | .afterBracket => True
  | .bracketOpen | .inQuotes _ _ | .afterQuotes _ | .inIndex _ => False

/-- A text that some path begins with. -/
def BeginsPath (front : String) : Prop :=
  ∃ more path, Path.parse (front ++ more) = .ok path

namespace Reader

variable {reader : Reader} {segments : List Segment} {read text : List Char} {c : Char}
  {fault : Fault} {offset place : Nat}

/-! ### One step -/

theorem offset?_of_closeIndex_eq_error (hclose : closeIndex segments read = .error fault) :
    fault.offset? = none := by
  unfold closeIndex at hclose
  split at hclose
  · cases hclose
  · cases hclose
    rfl

theorem beginKey_eq_error (hopen : c ≠ '[') (hbegin : beginKey segments offset c = .error fault) :
    fault.offset? = some offset ∧ fault.Blames c := by
  rcases char_cases c with rfl | rfl | rfl | hplain
  · cases hbegin
    exact ⟨rfl, rfl⟩
  · exact absurd rfl hopen
  · cases hbegin
    exact ⟨rfl, rfl⟩
  · rw [(beginKey_eq_ok_iff hopen).mpr ⟨hplain, rfl⟩] at hbegin
    cases hbegin

/-- Outside brackets, a step that fails reports the offset of its character. -/
theorem offset?_of_step_outside (houtside : reader.place.IsOutside)
    (hstep : reader.step offset c = .error fault) :
    fault.offset? = some offset ∧ fault.Blames c := by
  obtain ⟨segments, here⟩ := reader
  cases here with
  | start =>
      by_cases hopen : c = '['
      · simp [step, hopen] at hstep
      · exact beginKey_eq_error hopen (by simpa [step, hopen] using hstep)
  | afterDot =>
      by_cases hopen : c = '['
      · obtain rfl : Fault.emptyBeforeBracket offset = fault := by
          simpa [step, hopen] using hstep
        exact ⟨rfl, hopen⟩
      · exact beginKey_eq_error hopen (by simpa [step, hopen] using hstep)
  | inKey read =>
      rcases char_cases c with rfl | rfl | rfl | hplain
      · cases hstep
      · cases hstep
      · cases hstep
        exact ⟨rfl, rfl⟩
      · rw [step_inKey_iff.mpr (Or.inl ⟨hplain, rfl⟩)] at hstep
        cases hstep
  | afterBracket =>
      rcases char_cases c with rfl | rfl | rfl | hplain
      · cases hstep
      · cases hstep
      · cases hstep
        exact ⟨rfl, rfl⟩
      · obtain rfl : Fault.missingSeparator offset = fault := by
          simpa [step, hplain.1, hplain.2.1, hplain.2.2] using hstep
        exact ⟨rfl, hplain⟩
  | bracketOpen | inQuotes quote read | afterQuotes read | inIndex read => cases houtside

/-- Inside brackets, no fault has an offset. -/
theorem offset?_of_step_inside (hinside : ¬ reader.place.IsOutside)
    (hstep : reader.step offset c = .error fault) : fault.offset? = none := by
  obtain ⟨segments, here⟩ := reader
  cases here with
  | start | afterDot | inKey read | afterBracket => exact absurd trivial hinside
  | bracketOpen =>
      simp only [step] at hstep
      split at hstep
      · cases hstep
      · split at hstep
        · exact offset?_of_closeIndex_eq_error hstep
        · cases hstep
  | inQuotes quote read =>
      simp only [step] at hstep
      split at hstep <;> cases hstep
  | afterQuotes read =>
      simp only [step] at hstep
      split at hstep
      · cases hstep
      · cases hstep
        rfl
  | inIndex read =>
      simp only [step] at hstep
      split at hstep
      · exact offset?_of_closeIndex_eq_error hstep
      · cases hstep

theorem offset?_of_finish_eq_error (hfinish : reader.finish = .error fault) :
    fault.offset? = none := by
  unfold finish at hfinish
  split at hfinish <;> cases hfinish <;> rfl

/-! ### A whole run -/

/-- Outside brackets a path is at most one character short of its end. -/
theorem exists_run_eq_ok (houtside : reader.place.IsOutside) (offset : Nat) :
    ∃ more segments, reader.run offset more = .ok segments := by
  obtain ⟨segments, here⟩ := reader
  cases here with
  | start => exact ⟨[], _, rfl⟩
  | afterDot => exact ⟨['x'], _, rfl⟩
  | inKey read => exact ⟨[], _, rfl⟩
  | afterBracket => exact ⟨[], _, rfl⟩
  | bracketOpen | inQuotes quote read | afterQuotes read | inIndex read => cases houtside

/-- A run that fails with an offset fails in the step at that character. What stands before it leads
to a place outside brackets, from where the run goes on with whatever else follows. -/
theorem exists_step_of_run_eq_error (hrun : reader.run offset text = .error fault)
    (hfault : fault.offset? = some place) :
    ∃ front c rest, ∃ next : Reader, text = front ++ c :: rest ∧
      offset + (String.ofList front).utf8ByteSize = place ∧ fault.Blames c ∧
      next.place.IsOutside ∧ next.step place c = .error fault ∧
      ∀ more, reader.run offset (front ++ more) = next.run place more := by
  induction text generalizing reader offset with
  | nil =>
      rw [run] at hrun
      rw [offset?_of_finish_eq_error hrun] at hfault
      cases hfault
  | cons c rest ih =>
      rw [run, bind_eq_error_iff] at hrun
      rcases hrun with hstep | ⟨next, hstep, hrest⟩
      · by_cases houtside : reader.place.IsOutside
        · obtain ⟨hoffset, hblames⟩ := offset?_of_step_outside houtside hstep
          obtain rfl : offset = place := Option.some.inj (hoffset.symm.trans hfault)
          exact ⟨[], c, rest, reader, rfl, rfl, hblames, houtside, hstep, fun _ => rfl⟩
        · rw [offset?_of_step_inside houtside hstep] at hfault
          cases hfault
      · obtain ⟨front, last, after, reached, rfl, hplace, hblames, houtside, hlast, hgoes⟩ :=
          ih hrest
        refine ⟨c :: front, last, after, reached, rfl, ?_, hblames, houtside, hlast, fun more => ?_⟩
        · rw [String.ofList_cons, String.utf8ByteSize_append, String.utf8ByteSize_singleton,
            ← Nat.add_assoc]
          exact hplace
        · rw [List.cons_append, run, hstep]
          exact hgoes more

end Reader

/-! ### Texts of paths -/

theorem exists_parse_eq_ok_iff {text : String} :
    (∃ path, Path.parse text = .ok path) ↔ ∃ segments, readSegments text.toList = .ok segments := by
  rw [Path.parse]
  cases readSegments text.toList <;> simp

theorem readSegments_eq_error_of_parse {text : String} {fault : Fault}
    (hparse : Path.parse text = .error (.invalid text fault)) :
    readSegments text.toList = .error fault := by
  rw [Path.parse] at hparse
  cases hread : readSegments text.toList with
  | ok segments =>
      rw [hread] at hparse
      cases hparse
  | error other =>
      rw [hread] at hparse
      cases hparse
      rfl

theorem beginsPath_ofList_iff {front : List Char} :
    BeginsPath (String.ofList front) ↔
      ∃ more segments, Reader.initial.run 0 (front ++ more) = .ok segments := by
  unfold BeginsPath
  simp only [exists_parse_eq_ok_iff, String.toList_append, String.toList_ofList]
  constructor
  · rintro ⟨more, segments, hread⟩
    exact ⟨more.toList, segments, hread⟩
  · rintro ⟨more, segments, hread⟩
    exact ⟨String.ofList more, segments, by rwa [String.toList_ofList]⟩

/-- **Offsets point at the first fatal character.** Where a text is refused with an offset, a
character that the fault names begins at that byte. What stands before it is the beginning of some
path, and together with the character it is the beginning of none. -/
theorem parse_offset {text : String} {fault : Fault} {offset : Nat}
    (hparse : Path.parse text = .error (.invalid text fault))
    (hoffset : fault.offset? = some offset) :
    ∃ front c rest, text = front ++ String.singleton c ++ rest ∧ front.utf8ByteSize = offset ∧
      BeginsPath front ∧ ¬ BeginsPath (front ++ String.singleton c) ∧ fault.Blames c := by
  obtain ⟨front, c, rest, next, hsplit, hplace, hblames, houtside, hstep, hgoes⟩ :=
    Reader.exists_step_of_run_eq_error (readSegments_eq_error_of_parse hparse) hoffset
  refine ⟨String.ofList front, c, String.ofList rest, ?_, ?_, ?_, ?_, hblames⟩
  · rw [← String.toList_inj, hsplit, String.singleton_eq_ofList, ← String.ofList_append,
      ← String.ofList_append, String.toList_ofList, List.append_assoc]
    rfl
  · rwa [Nat.zero_add] at hplace
  · obtain ⟨more, segments, hmore⟩ := Reader.exists_run_eq_ok houtside offset
    exact beginsPath_ofList_iff.mpr ⟨more, segments, (hgoes more).trans hmore⟩
  · rw [String.singleton_eq_ofList, ← String.ofList_append, beginsPath_ofList_iff]
    rintro ⟨more, segments, hread⟩
    rw [List.append_assoc, hgoes, List.singleton_append, Reader.run, hstep] at hread
    cases hread

/-- A plain character behind a quoted key with a bracket, a dot and a character of three bytes. -/
theorem parse_offset_after_quoted_key :
    let text := "é[\"日.]\"]x"
    let fault := Fault.missingSeparator 11
    Path.parse text = .error (.invalid text fault) ∧ fault.offset? = some 11 ∧
      ∃ front c rest, text = front ++ String.singleton c ++ rest ∧ front.utf8ByteSize = 11 ∧
        BeginsPath front ∧ ¬ BeginsPath (front ++ String.singleton c) ∧ fault.Blames c := by
  intro text fault
  have hparse : Path.parse text = .error (.invalid text fault) := by
    decide
  exact ⟨hparse, rfl, parse_offset hparse rfl⟩

end Reshape.Path
