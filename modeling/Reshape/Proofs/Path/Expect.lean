import Reshape.Proofs.Path.Grammar

/-!
# What a place in a path expects

What may follow at a place is what completes the item that has begun there, or a whole item or tail
where none has, and then tails. It is taken off one character at a time.
-/

namespace Reshape.Path

/-- The rest of an item that has begun at a place, and the segment that it completes. -/
def Place.Rest : Place → List Char → Segment → Prop
  | .start => Item
  | .afterDot => BareKey
  | .inKey read => fun text segment =>
    (∀ c ∈ text, IsPlain c) ∧ segment = .key (String.ofList (read.reverse ++ text))
  | .afterBracket => Tail
  | .bracketOpen => fun text segment => Bracket ('[' :: text) segment
  | .inQuotes quote read => fun text segment =>
    ∃ key, text = key ++ [quote, ']'] ∧ quote ∉ key ∧
      segment = .key (String.ofList (read.reverse ++ key))
  | .afterQuotes read => fun text segment =>
    text = [']'] ∧ segment = .key (String.ofList read.reverse)
  | .inIndex read => fun text segment =>
    ∃ inner position, text = inner ++ [']'] ∧ ']' ∉ inner ∧
      IsIndexText (read.reverse ++ inner) position ∧ segment = .index position

/-- Places between items, where a text may end. -/
def Place.IsBetween : Place → Prop
  | .start => True
  | .afterBracket => True
  | _ => False

def Follows (item : List Char → Segment → Prop) (text : List Char) (segments : List Segment) :
    Prop :=
  ∃ part more segment others, text = part ++ more ∧ item part segment ∧ Tails more others ∧
    segments = segment :: others

/-- What may follow at a place, and the segments that it adds. -/
def Place.Expects (place : Place) (text : List Char) (segments : List Segment) : Prop :=
  place.IsBetween ∧ text = [] ∧ segments = [] ∨ Follows place.Rest text segments

/-! ### Items one character at a time -/

section Items

variable {c quote : Char} {text read : List Char} {segment : Segment}

theorem bareKey_cons_iff :
    BareKey (c :: text) segment ↔ IsPlain c ∧ (Place.inKey [c]).Rest text segment := by
  constructor
  · rintro ⟨-, hplain⟩
    rw [List.forall_mem_cons] at hplain
    exact ⟨hplain.1, hplain.2, rfl⟩
  · rintro ⟨hc, hplain, rfl⟩
    exact .intro (List.cons_ne_nil c text) (List.forall_mem_cons.mpr ⟨hc, hplain⟩)

theorem bracket_cons_iff :
    Bracket (c :: text) segment ↔ c = '[' ∧ Place.bracketOpen.Rest text segment := by
  constructor
  · intro hbracket
    obtain rfl : c = '[' := by
      cases hbracket <;> rfl
    exact ⟨rfl, hbracket⟩
  · rintro ⟨rfl, hbracket⟩
    exact hbracket

theorem item_cons_iff :
    Item (c :: text) segment ↔
      c = '[' ∧ Place.bracketOpen.Rest text segment ∨
        IsPlain c ∧ (Place.inKey [c]).Rest text segment := by
  rw [← bareKey_cons_iff, ← bracket_cons_iff]
  constructor
  · rintro (hkey | hbracket)
    · exact Or.inr hkey
    · exact Or.inl hbracket
  · rintro (hbracket | hkey)
    · exact .bracket hbracket
    · exact .key hkey

theorem tail_cons_iff :
    Tail (c :: text) segment ↔
      c = '.' ∧ Place.afterDot.Rest text segment ∨
        c = '[' ∧ Place.bracketOpen.Rest text segment := by
  rw [← bracket_cons_iff]
  constructor
  · rintro (hkey | hbracket)
    · exact Or.inl ⟨rfl, hkey⟩
    · exact Or.inr hbracket
  · rintro (⟨rfl, hkey⟩ | hbracket)
    · exact .key hkey
    · exact .bracket hbracket

theorem rest_inKey_cons_iff :
    (Place.inKey read).Rest (c :: text) segment ↔
      IsPlain c ∧ (Place.inKey (c :: read)).Rest text segment := by
  simp [Place.Rest, and_assoc]

theorem rest_inQuotes_cons_iff :
    (Place.inQuotes quote read).Rest (c :: text) segment ↔
      c = quote ∧ (Place.afterQuotes read).Rest text segment ∨
        c ≠ quote ∧ (Place.inQuotes quote (c :: read)).Rest text segment := by
  constructor
  · rintro ⟨key, hsplit, hkey, rfl⟩
    cases key with
    | nil =>
        obtain ⟨rfl, rfl⟩ := List.cons.inj hsplit
        exact Or.inl ⟨rfl, rfl, by rw [List.append_nil]⟩
    | cons d key =>
        obtain ⟨rfl, rfl⟩ := List.cons.inj hsplit
        rw [List.mem_cons, not_or] at hkey
        exact Or.inr ⟨Ne.symm hkey.1, key, rfl, hkey.2, by simp⟩
  · rintro (⟨rfl, rfl, rfl⟩ | ⟨hne, key, rfl, hkey, rfl⟩)
    · exact ⟨[], rfl, List.not_mem_nil, by rw [List.append_nil]⟩
    · refine ⟨c :: key, rfl, ?_, by simp⟩
      rw [List.mem_cons, not_or]
      exact ⟨Ne.symm hne, hkey⟩

theorem rest_afterQuotes_cons_iff :
    (Place.afterQuotes read).Rest (c :: text) segment ↔
      c = ']' ∧ text = [] ∧ segment = .key (String.ofList read.reverse) := by
  simp [Place.Rest, and_assoc]

theorem rest_inIndex_cons_iff :
    (Place.inIndex read).Rest (c :: text) segment ↔
      c = ']' ∧ text = [] ∧ (∃ position, IsIndexText read.reverse position ∧
        segment = .index position) ∨
        c ≠ ']' ∧ (Place.inIndex (c :: read)).Rest text segment := by
  constructor
  · rintro ⟨inner, position, hsplit, hinner, hindex, rfl⟩
    cases inner with
    | nil =>
        obtain ⟨rfl, rfl⟩ := List.cons.inj hsplit
        rw [List.append_nil] at hindex
        exact Or.inl ⟨rfl, rfl, position, hindex, rfl⟩
    | cons d inner =>
        obtain ⟨rfl, rfl⟩ := List.cons.inj hsplit
        rw [List.mem_cons, not_or] at hinner
        exact Or.inr ⟨Ne.symm hinner.1, inner, position, rfl, hinner.2, by simpa using hindex, rfl⟩
  · rintro (⟨rfl, rfl, position, hindex, rfl⟩ | ⟨hne, inner, position, rfl, hinner, hindex, rfl⟩)
    · exact ⟨[], position, rfl, List.not_mem_nil, by rwa [List.append_nil], rfl⟩
    · refine ⟨c :: inner, position, rfl, ?_, by simpa using hindex, rfl⟩
      rw [List.mem_cons, not_or]
      exact ⟨Ne.symm hne, hinner⟩

theorem not_isIndexText_nil (position : Nat) : ¬ IsIndexText [] position := by
  rw [isIndexText_iff]
  exact nofun

theorem rest_bracketOpen_cons_iff :
    Place.bracketOpen.Rest (c :: text) segment ↔
      IsQuote c ∧ (Place.inQuotes c []).Rest text segment ∨
        ¬ IsQuote c ∧ c ≠ ']' ∧ (Place.inIndex [c]).Rest text segment := by
  constructor
  · intro hbracket
    rcases bracket_iff.mp hbracket with ⟨quote, key, hopened, hquote, hkey, rfl⟩ |
      ⟨inner, position, hopened, hclose, hquote, hindex, rfl⟩
    · obtain ⟨rfl, rfl⟩ := List.cons.inj (List.cons.inj hopened).2
      exact Or.inl ⟨hquote, key, rfl, hkey, rfl⟩
    · cases inner with
      | nil => exact absurd hindex (not_isIndexText_nil position)
      | cons d inner =>
          obtain ⟨rfl, rfl⟩ := List.cons.inj (List.cons.inj hopened).2
          rw [List.mem_cons, not_or] at hclose
          exact Or.inr ⟨hquote c rfl, Ne.symm hclose.1, inner, position, rfl, hclose.2, hindex, rfl⟩
  · rintro (⟨hquote, key, rfl, hkey, rfl⟩ | ⟨hquote, hne, inner, position, rfl, hinner, hindex, rfl⟩)
    · exact .quoted hquote hkey
    · have hclose : ']' ∉ c :: inner := by
        rw [List.mem_cons, not_or]
        exact ⟨Ne.symm hne, hinner⟩
      exact bracket_iff.mpr (Or.inr ⟨c :: inner, position, rfl, hclose, by simpa using hquote,
        by simpa using hindex, rfl⟩)

/-- Only a bare key may be complete as it stands. -/
theorem rest_nil_iff {place : Place} :
    place.Rest [] segment ↔
      ∃ read, place = .inKey read ∧ segment = .key (String.ofList read.reverse) := by
  cases place with
  | start =>
      constructor
      · rintro (⟨hne, -⟩ | hbracket)
        · exact absurd rfl hne
        · cases hbracket
      · simp
  | afterDot =>
      constructor
      · rintro ⟨hne, -⟩
        exact absurd rfl hne
      · simp
  | inKey read => simp [Place.Rest]
  | afterBracket =>
      constructor
      · rintro (_ | hbracket)
        cases hbracket
      · simp
  | bracketOpen => simp [Place.Rest, bracket_iff]
  | inQuotes quote read => simp [Place.Rest]
  | afterQuotes read => simp [Place.Rest]
  | inIndex read => simp [Place.Rest]

end Items

/-! ### What is expected one character at a time -/

section Expects

variable {place : Place} {c quote : Char} {text rest read : List Char} {segments : List Segment}
  {item other : List Char → Segment → Prop}

theorem follows_congr (hitem : ∀ text segment, item text segment ↔ other text segment) :
    Follows item rest segments ↔ Follows other rest segments := by
  simp only [Follows, hitem]

theorem follows_or_iff :
    Follows (fun text segment => item text segment ∨ other text segment) rest segments ↔
      Follows item rest segments ∨ Follows other rest segments := by
  simp only [Follows, and_or_left, or_and_right, exists_or]

theorem follows_and_iff {condition : Prop} :
    Follows (fun text segment => condition ∧ item text segment) rest segments ↔
      condition ∧ Follows item rest segments := by
  constructor
  · rintro ⟨part, more, segment, others, rfl, ⟨hcondition, hitem⟩, hmore⟩
    exact ⟨hcondition, part, more, segment, others, rfl, hitem, hmore⟩
  · rintro ⟨hcondition, part, more, segment, others, rfl, hitem, hmore⟩
    exact ⟨part, more, segment, others, rfl, ⟨hcondition, hitem⟩, hmore⟩

theorem follows_nil_iff {completed : Segment → Prop} :
    Follows (fun text segment => text = [] ∧ completed segment) rest segments ↔
      ∃ segment others, completed segment ∧ Tails rest others ∧ segments = segment :: others := by
  constructor
  · rintro ⟨part, more, segment, others, rfl, ⟨rfl, hsegment⟩, hmore⟩
    exact ⟨segment, others, hsegment, hmore⟩
  · rintro ⟨segment, others, hsegment, hmore⟩
    exact ⟨[], rest, segment, others, rfl, ⟨rfl, hsegment⟩, hmore⟩

theorem follows_cons_iff :
    Follows item (c :: rest) segments ↔
      Follows (fun text => item (c :: text)) rest segments ∨
        ∃ segment others, item [] segment ∧ Tails (c :: rest) others ∧
          segments = segment :: others := by
  constructor
  · rintro ⟨part, more, segment, others, hsplit, hitem, hmore, rfl⟩
    cases part with
    | nil =>
        obtain rfl : c :: rest = more := hsplit
        exact Or.inr ⟨segment, others, hitem, hmore, rfl⟩
    | cons d part =>
        obtain ⟨rfl, rfl⟩ := List.cons.inj hsplit
        exact Or.inl ⟨part, more, segment, others, rfl, hitem, hmore, rfl⟩
  · rintro (⟨part, more, segment, others, rfl, hitem, hmore, rfl⟩ |
      ⟨segment, others, hitem, hmore, rfl⟩)
    · exact ⟨c :: part, more, segment, others, rfl, hitem, hmore, rfl⟩
    · exact ⟨[], c :: rest, segment, others, rfl, hitem, hmore, rfl⟩

theorem tails_iff : Tails text segments ↔ Place.afterBracket.Expects text segments := by
  constructor
  · rintro (_ | ⟨htail, hmore⟩)
    · exact Or.inl ⟨trivial, rfl, rfl⟩
    · exact Or.inr ⟨_, _, _, _, rfl, htail, hmore, rfl⟩
  · rintro (⟨-, rfl, rfl⟩ | ⟨part, more, segment, others, rfl, htail, hmore, rfl⟩)
    · exact .nil
    · exact .cons htail hmore

theorem tails_nil_iff : Tails [] segments ↔ segments = [] := by
  rw [tails_iff]
  constructor
  · rintro (⟨-, -, rfl⟩ | ⟨part, more, segment, others, hsplit, htail, -, -⟩)
    · rfl
    · obtain ⟨rfl, -⟩ := List.append_eq_nil_iff.mp hsplit.symm
      obtain ⟨read, hread, -⟩ := rest_nil_iff.mp htail
      cases hread
  · exact fun hnil => Or.inl ⟨trivial, rfl, hnil⟩

theorem written_iff : Written text segments ↔ Place.start.Expects text segments := by
  constructor
  · rintro (_ | ⟨hitem, hmore⟩)
    · exact Or.inl ⟨trivial, rfl, rfl⟩
    · exact Or.inr ⟨_, _, _, _, rfl, hitem, hmore, rfl⟩
  · rintro (⟨-, rfl, rfl⟩ | ⟨part, more, segment, others, rfl, hitem, hmore, rfl⟩)
    · exact .root
    · exact .path hitem hmore

theorem follows_rest_iff (hbetween : ¬ place.IsBetween) :
    Follows place.Rest text segments ↔ place.Expects text segments := by
  rw [Place.Expects, or_iff_right fun h => hbetween h.1]

theorem expects_nil_iff :
    place.Expects [] segments ↔
      place.IsBetween ∧ segments = [] ∨
        ∃ read, place = .inKey read ∧ segments = [.key (String.ofList read.reverse)] := by
  have hfollows : Follows place.Rest [] segments ↔
      ∃ read, place = .inKey read ∧ segments = [.key (String.ofList read.reverse)] := by
    constructor
    · rintro ⟨part, more, segment, others, hsplit, hrest, hmore, rfl⟩
      obtain ⟨rfl, rfl⟩ := List.append_eq_nil_iff.mp hsplit.symm
      obtain ⟨read, hread, rfl⟩ := rest_nil_iff.mp hrest
      rw [tails_nil_iff.mp hmore]
      exact ⟨read, hread, rfl⟩
    · rintro ⟨read, hread, rfl⟩
      exact ⟨[], [], _, [], rfl, rest_nil_iff.mpr ⟨read, hread, rfl⟩, .nil, rfl⟩
  rw [Place.Expects, hfollows, eq_self_iff_true, true_and]

/-- Unless a bare key may end here, the next character goes on with the item. -/
theorem expects_cons_iff (hkey : ∀ read, place ≠ .inKey read)
    (hrest : ∀ text segment, place.Rest (c :: text) segment ↔ item text segment) :
    place.Expects (c :: rest) segments ↔ Follows item rest segments := by
  have hitem : (fun text => place.Rest (c :: text)) = item := by
    funext text segment
    exact propext (hrest text segment)
  rw [Place.Expects, follows_cons_iff, hitem]
  constructor
  · rintro (⟨-, hnil, -⟩ | hitem | ⟨segment, others, hnil, -⟩)
    · cases hnil
    · exact hitem
    · obtain ⟨read, hread, -⟩ := rest_nil_iff.mp hnil
      exact absurd hread (hkey read)
  · exact fun hitem => Or.inr (Or.inl hitem)

theorem expects_afterBracket_cons_iff :
    Place.afterBracket.Expects (c :: rest) segments ↔
      c = '.' ∧ Place.afterDot.Expects rest segments ∨
        c = '[' ∧ Place.bracketOpen.Expects rest segments := by
  refine Iff.trans (expects_cons_iff nofun fun _ _ => tail_cons_iff) ?_
  rw [follows_or_iff, follows_and_iff, follows_and_iff, follows_rest_iff id, follows_rest_iff id]

theorem expects_start_cons_iff :
    Place.start.Expects (c :: rest) segments ↔
      c = '[' ∧ Place.bracketOpen.Expects rest segments ∨
        IsPlain c ∧ (Place.inKey [c]).Expects rest segments := by
  refine Iff.trans (expects_cons_iff nofun fun _ _ => item_cons_iff) ?_
  rw [follows_or_iff, follows_and_iff, follows_and_iff, follows_rest_iff id, follows_rest_iff id]

theorem expects_afterDot_cons_iff :
    Place.afterDot.Expects (c :: rest) segments ↔
      IsPlain c ∧ (Place.inKey [c]).Expects rest segments := by
  refine Iff.trans (expects_cons_iff nofun fun _ _ => bareKey_cons_iff) ?_
  rw [follows_and_iff, follows_rest_iff id]

theorem expects_inKey_cons_iff :
    (Place.inKey read).Expects (c :: rest) segments ↔
      IsPlain c ∧ (Place.inKey (c :: read)).Expects rest segments ∨
        ∃ others, Place.afterBracket.Expects (c :: rest) others ∧
          segments = .key (String.ofList read.reverse) :: others := by
  have hgoes : Follows (fun text => (Place.inKey read).Rest (c :: text)) rest segments ↔
      IsPlain c ∧ (Place.inKey (c :: read)).Expects rest segments := by
    refine Iff.trans (follows_congr fun _ _ => rest_inKey_cons_iff) ?_
    rw [follows_and_iff, follows_rest_iff id]
  have hends : (∃ segment others, (Place.inKey read).Rest [] segment ∧ Tails (c :: rest) others ∧
      segments = segment :: others) ↔
      ∃ others, Place.afterBracket.Expects (c :: rest) others ∧
        segments = .key (String.ofList read.reverse) :: others := by
    simp [Place.Rest, tails_iff]
  rw [← follows_rest_iff id, follows_cons_iff, hgoes, hends]

theorem expects_bracketOpen_cons_iff :
    Place.bracketOpen.Expects (c :: rest) segments ↔
      IsQuote c ∧ (Place.inQuotes c []).Expects rest segments ∨
        ¬ IsQuote c ∧ c ≠ ']' ∧ (Place.inIndex [c]).Expects rest segments := by
  refine Iff.trans (expects_cons_iff nofun fun _ _ => rest_bracketOpen_cons_iff) ?_
  rw [follows_or_iff, follows_and_iff, follows_and_iff, follows_and_iff, follows_rest_iff id,
    follows_rest_iff id]

theorem expects_inQuotes_cons_iff :
    (Place.inQuotes quote read).Expects (c :: rest) segments ↔
      c = quote ∧ (Place.afterQuotes read).Expects rest segments ∨
        c ≠ quote ∧ (Place.inQuotes quote (c :: read)).Expects rest segments := by
  refine Iff.trans (expects_cons_iff nofun fun _ _ => rest_inQuotes_cons_iff) ?_
  rw [follows_or_iff, follows_and_iff, follows_and_iff, follows_rest_iff id, follows_rest_iff id]

theorem expects_afterQuotes_cons_iff :
    (Place.afterQuotes read).Expects (c :: rest) segments ↔
      c = ']' ∧ ∃ others, Place.afterBracket.Expects rest others ∧
        segments = .key (String.ofList read.reverse) :: others := by
  refine Iff.trans (expects_cons_iff nofun fun _ _ => rest_afterQuotes_cons_iff) ?_
  rw [follows_and_iff, follows_nil_iff]
  simp [tails_iff]

theorem expects_inIndex_cons_iff :
    (Place.inIndex read).Expects (c :: rest) segments ↔
      c = ']' ∧ (∃ position others, IsIndexText read.reverse position ∧
        Place.afterBracket.Expects rest others ∧ segments = .index position :: others) ∨
        c ≠ ']' ∧ (Place.inIndex (c :: read)).Expects rest segments := by
  refine Iff.trans (expects_cons_iff nofun fun _ _ => rest_inIndex_cons_iff) ?_
  rw [follows_or_iff, follows_and_iff, follows_and_iff, follows_nil_iff, follows_rest_iff id]
  have hcompleted : (∃ segment others, (∃ position, IsIndexText read.reverse position ∧
      segment = Segment.index position) ∧ Tails rest others ∧ segments = segment :: others) ↔
      ∃ position others, IsIndexText read.reverse position ∧
        Place.afterBracket.Expects rest others ∧ segments = .index position :: others := by
    constructor
    · rintro ⟨segment, others, ⟨position, hindex, rfl⟩, hmore, rfl⟩
      exact ⟨position, others, hindex, tails_iff.mp hmore, rfl⟩
    · rintro ⟨position, others, hindex, hmore, rfl⟩
      exact ⟨_, others, ⟨position, hindex, rfl⟩, tails_iff.mpr hmore, rfl⟩
  rw [hcompleted]

end Expects

end Reshape.Path
