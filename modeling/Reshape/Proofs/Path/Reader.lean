import Reshape.Proofs.Except
import Reshape.Proofs.Path.Expect

/-!
# The reader of paths against the grammar

Each step of the reader takes a character off what may follow at its place, so that the texts it
accepts are those of the grammar.
-/

namespace Reshape.Path

namespace Reader

variable {segments result : List Segment} {c quote : Char} {text rest read : List Char}
  {offset : Nat} {next reader : Reader}

theorem closeIndex_eq_ok_iff :
    closeIndex segments read = .ok next ↔
      ∃ position, IsIndexText read.reverse position ∧
        next = ⟨.index position :: segments, .afterBracket⟩ := by
  simp only [isIndexText_iff]
  unfold closeIndex
  split
  · next position hread =>
      rw [hread]
      simp [eq_comm]
  · next hread =>
      rw [hread]
      simp

theorem beginKey_eq_ok_iff (hopen : c ≠ '[') :
    beginKey segments offset c = .ok next ↔ IsPlain c ∧ next = ⟨segments, .inKey [c]⟩ := by
  rcases char_cases c with rfl | rfl | rfl | hplain
  · simp [beginKey, IsPlain]
  · exact absurd rfl hopen
  · simp [beginKey, IsPlain]
  · have hbegin : beginKey segments offset c = .ok ⟨segments, .inKey [c]⟩ := by
      unfold beginKey
      split
      · exact absurd rfl hplain.1
      · exact absurd rfl hplain.2.2
      · rfl
    simp [hbegin, hplain, eq_comm]

theorem step_start_iff :
    step ⟨segments, .start⟩ offset c = .ok next ↔
      c = '[' ∧ next = ⟨segments, .bracketOpen⟩ ∨ IsPlain c ∧ next = ⟨segments, .inKey [c]⟩ := by
  by_cases hopen : c = '['
  · simp [step, hopen, IsPlain, eq_comm]
  · simp [step, hopen, beginKey_eq_ok_iff hopen]

theorem step_afterDot_iff :
    step ⟨segments, .afterDot⟩ offset c = .ok next ↔
      IsPlain c ∧ next = ⟨segments, .inKey [c]⟩ := by
  by_cases hopen : c = '['
  · simp [step, hopen, IsPlain]
  · simp [step, hopen, beginKey_eq_ok_iff hopen]

theorem step_afterBracket_iff :
    step ⟨segments, .afterBracket⟩ offset c = .ok next ↔
      c = '.' ∧ next = ⟨segments, .afterDot⟩ ∨ c = '[' ∧ next = ⟨segments, .bracketOpen⟩ := by
  rcases char_cases c with rfl | rfl | rfl | ⟨hdot, hopen, hclose⟩
  · simp [step, eq_comm]
  · simp [step, eq_comm]
  · simp [step]
  · simp [step, hdot, hopen]

/-- Where a bare key ends, the reader goes on as after a bracket. -/
theorem step_inKey_iff :
    step ⟨segments, .inKey read⟩ offset c = .ok next ↔
      IsPlain c ∧ next = ⟨segments, .inKey (c :: read)⟩ ∨
        step ⟨.key (String.ofList read.reverse) :: segments, .afterBracket⟩ offset c =
          .ok next := by
  rw [step_afterBracket_iff]
  rcases char_cases c with rfl | rfl | rfl | ⟨hdot, hopen, hclose⟩
  · simp [step, IsPlain, eq_comm]
  · simp [step, IsPlain, eq_comm]
  · simp [step, IsPlain]
  · simp [step, IsPlain, hdot, hopen, hclose, eq_comm]

theorem step_bracketOpen_iff :
    step ⟨segments, .bracketOpen⟩ offset c = .ok next ↔
      IsQuote c ∧ next = ⟨segments, .inQuotes c []⟩ ∨
        ¬ IsQuote c ∧ c ≠ ']' ∧ next = ⟨segments, .inIndex [c]⟩ := by
  unfold IsQuote
  by_cases hquote : c = '"' ∨ c = '\''
  · simp [step, hquote, eq_comm]
  by_cases hclose : c = ']'
  · simp [step, hclose, closeIndex_eq_ok_iff, not_isIndexText_nil]
  · simp [step, hquote, hclose, eq_comm]

theorem step_inQuotes_iff :
    step ⟨segments, .inQuotes quote read⟩ offset c = .ok next ↔
      c = quote ∧ next = ⟨segments, .afterQuotes read⟩ ∨
        c ≠ quote ∧ next = ⟨segments, .inQuotes quote (c :: read)⟩ := by
  by_cases hclose : c = quote
  · simp [step, hclose, eq_comm]
  · simp [step, hclose, eq_comm]

theorem step_afterQuotes_iff :
    step ⟨segments, .afterQuotes read⟩ offset c = .ok next ↔
      c = ']' ∧ next = ⟨.key (String.ofList read.reverse) :: segments, .afterBracket⟩ := by
  by_cases hclose : c = ']'
  · simp [step, hclose, eq_comm]
  · simp [step, hclose]

theorem step_inIndex_iff :
    step ⟨segments, .inIndex read⟩ offset c = .ok next ↔
      c = ']' ∧ (∃ position, IsIndexText read.reverse position ∧
        next = ⟨.index position :: segments, .afterBracket⟩) ∨
        c ≠ ']' ∧ next = ⟨segments, .inIndex (c :: read)⟩ := by
  by_cases hclose : c = ']'
  · simp [step, hclose, closeIndex_eq_ok_iff]
  · simp [step, hclose, eq_comm]

/-- What the reader is to give on a text: what it has, and what may follow at its place. -/
def Accepts (reader : Reader) (text : List Char) (result : List Segment) : Prop :=
  ∃ segments, reader.place.Expects text segments ∧ result = reader.segments.reverse ++ segments

theorem exists_push_iff {segment : Segment} {place : Place} :
    (∃ added, (∃ others, place.Expects text others ∧ added = segment :: others) ∧
      result = segments.reverse ++ added) ↔
      Accepts ⟨segment :: segments, place⟩ text result := by
  simp [Accepts]

theorem accepts_afterBracket_iff :
    Accepts ⟨segments, .afterBracket⟩ (c :: rest) result ↔
      ∃ next, step ⟨segments, .afterBracket⟩ offset c = .ok next ∧ next.Accepts rest result := by
  simp only [Accepts, expects_afterBracket_cons_iff, step_afterBracket_iff, or_and_right,
    exists_or, and_assoc, exists_and_left, exists_eq_left]

/-- A step takes a character off the front of what is accepted. -/
theorem accepts_cons_iff :
    reader.Accepts (c :: rest) result ↔
      ∃ next, reader.step offset c = .ok next ∧ next.Accepts rest result := by
  obtain ⟨segments, place⟩ := reader
  cases place with
  | start =>
      simp only [Accepts, expects_start_cons_iff, step_start_iff, or_and_right, exists_or,
        and_assoc, exists_and_left, exists_eq_left]
  | afterDot =>
      simp only [Accepts, expects_afterDot_cons_iff, step_afterDot_iff, and_assoc, exists_and_left,
        exists_eq_left]
  | inKey read =>
      -- where the key ends, its segment joins those that the reader has
      rw [Accepts]
      simp only [expects_inKey_cons_iff, step_inKey_iff, or_and_right, exists_or, and_assoc,
        exists_and_left, exists_eq_left, exists_push_iff, ← accepts_afterBracket_iff]
      exact Iff.rfl
  | afterBracket => exact accepts_afterBracket_iff
  | bracketOpen =>
      simp only [Accepts, expects_bracketOpen_cons_iff, step_bracketOpen_iff, or_and_right,
        exists_or, and_assoc, exists_and_left, exists_eq_left]
  | inQuotes quote read =>
      simp only [Accepts, expects_inQuotes_cons_iff, step_inQuotes_iff, or_and_right,
        exists_or, and_assoc, exists_and_left, exists_eq_left]
  | afterQuotes read =>
      rw [Accepts]
      simp only [expects_afterQuotes_cons_iff, step_afterQuotes_iff, and_assoc, exists_and_left,
        exists_eq_left, exists_push_iff]
  | inIndex read =>
      rw [Accepts]
      constructor
      · rintro ⟨added, hexpects, hresult⟩
        rcases expects_inIndex_cons_iff.mp hexpects with ⟨hclose, position, others, hindex, hmore⟩ |
          ⟨hclose, hmore⟩
        · exact ⟨_, step_inIndex_iff.mpr (Or.inl ⟨hclose, position, hindex, rfl⟩),
            exists_push_iff.mp ⟨added, ⟨others, hmore⟩, hresult⟩⟩
        · exact ⟨_, step_inIndex_iff.mpr (Or.inr ⟨hclose, rfl⟩), added, hmore, hresult⟩
      · rintro ⟨next, hstep, haccepts⟩
        rcases step_inIndex_iff.mp hstep with ⟨hclose, position, hindex, rfl⟩ | ⟨hclose, rfl⟩
        · obtain ⟨added, ⟨others, hmore⟩, hresult⟩ := exists_push_iff.mpr haccepts
          exact ⟨added, expects_inIndex_cons_iff.mpr
            (Or.inl ⟨hclose, position, others, hindex, hmore⟩), hresult⟩
        · obtain ⟨added, hmore, hresult⟩ := haccepts
          exact ⟨added, expects_inIndex_cons_iff.mpr (Or.inr ⟨hclose, hmore⟩), hresult⟩

theorem accepts_nil_iff : reader.Accepts [] result ↔ reader.finish = .ok result := by
  obtain ⟨segments, place⟩ := reader
  cases place <;> simp [Accepts, expects_nil_iff, Place.IsBetween, finish, eq_comm]

theorem run_eq_ok_iff : reader.run offset text = .ok result ↔ reader.Accepts text result := by
  -- the offset is only shown in faults, so that any offset will do
  induction text generalizing reader offset with
  | nil => exact accepts_nil_iff.symm
  | cons c rest ih =>
      rw [run, bind_eq_ok_iff, accepts_cons_iff]
      exact exists_congr fun next => and_congr_right fun _ => ih

end Reader

theorem readSegments_eq_ok_iff {text : List Char} {segments : List Segment} :
    readSegments text = .ok segments ↔ Written text segments := by
  rw [readSegments, Reader.run_eq_ok_iff, written_iff]
  simp [Reader.Accepts, Reader.initial]

/-- A text is written in one way only. -/
theorem Written.unique {text : List Char} {segments others : List Segment}
    (hsegments : Written text segments) (hothers : Written text others) : segments = others := by
  rw [← readSegments_eq_ok_iff] at hsegments hothers
  exact Except.ok.inj (hsegments.symm.trans hothers)

theorem parse_eq_ok_iff {text : String} {path : Path} :
    Path.parse text = .ok path ↔ path.text = text ∧ Written text.toList path.segments := by
  obtain ⟨written, segments⟩ := path
  rw [← readSegments_eq_ok_iff, Path.parse]
  cases readSegments text.toList with
  | ok read => simp [eq_comm]
  | error fault => simp

theorem written_root_iff {text : List Char} : Written text [] ↔ text = [] := by
  constructor
  · rintro ⟨⟩
    rfl
  · rintro rfl
    exact .root

/-- **The grammar of paths.** A text is read as a path exactly if it is written in the grammar, as
the segments that the grammar gives it, and only the empty text is the root. -/
theorem parse_grammar (text : String) (path : Path) :
    (Path.parse text = .ok path ↔ path.text = text ∧ Written text.toList path.segments) ∧
      (Path.parse text = .ok path → (path.isRoot = true ↔ text = "")) := by
  refine ⟨parse_eq_ok_iff, fun hparse => ?_⟩
  obtain ⟨-, hwritten⟩ := parse_eq_ok_iff.mp hparse
  rw [Path.isRoot, List.isEmpty_iff]
  constructor
  · intro hroot
    rw [hroot, written_root_iff, String.toList_eq_nil_iff] at hwritten
    exact hwritten
  · rintro rfl
    exact hwritten.unique .root

theorem parse_grammar_quoted :
    ∃ path, Path.parse "a['b.c'][ +2 ].d" = .ok path ∧
      Written "a['b.c'][ +2 ].d".toList path.segments ∧ path.isRoot = false := by
  have hparse : Path.parse "a['b.c'][ +2 ].d" =
      .ok ⟨"a['b.c'][ +2 ].d", [.key "a", .key "b.c", .index 2, .key "d"]⟩ := by
    decide
  obtain ⟨hgrammar, hroot⟩ := parse_grammar "a['b.c'][ +2 ].d" _
  refine ⟨_, hparse, (hgrammar.mp hparse).2, ?_⟩
  rw [← Bool.not_eq_true, hroot hparse]
  decide

end Reshape.Path
