import Reshape.Path
import Reshape.Proofs.Text.Blank

/-!
# The grammar of paths

A path is empty, or an item followed by tails. An item is a bare key or a bracket, a tail is a dot
and a bare key, or a bracket; a bracket holds a quoted key or an index with blanks around it.
-/

namespace Reshape.Path

/-- A character of a bare key. -/
def IsPlain (c : Char) : Prop :=
  c ≠ '.' ∧ c ≠ '[' ∧ c ≠ ']'

def IsQuote (c : Char) : Prop :=
  c = '"' ∨ c = '\''

inductive BareKey : List Char → Segment → Prop
  | intro {key : List Char} (hne : key ≠ []) (hplain : ∀ c ∈ key, IsPlain c) :
      BareKey key (.key (String.ofList key))

/-- Decimal digits of a word of 64 bits, perhaps behind a plus sign, with blanks around them. -/
def IsIndexText (inner : List Char) (position : Nat) : Prop :=
  ∃ before sign digits after, inner = before ++ (sign ++ digits) ++ after ∧
    (∀ c ∈ before, Text.isBlank c = true) ∧ (∀ c ∈ after, Text.isBlank c = true) ∧
    (sign = [] ∨ sign = ['+']) ∧ digits ≠ [] ∧ (∀ c ∈ digits, c.isDigit = true) ∧
    Nat.ofDigitChars 10 digits 0 = position ∧ position < 2 ^ 64

inductive Bracket : List Char → Segment → Prop
  | quoted {quote : Char} {key : List Char} (hquote : IsQuote quote) (hkey : quote ∉ key) :
      Bracket ('[' :: quote :: (key ++ [quote, ']'])) (.key (String.ofList key))
  | index {inner : List Char} {position : Nat} (hclose : ']' ∉ inner)
      (hquote : ∀ c, inner.head? = some c → ¬ IsQuote c) (hindex : IsIndexText inner position) :
      Bracket ('[' :: (inner ++ [']'])) (.index position)

inductive Item : List Char → Segment → Prop
  | key {text : List Char} {segment : Segment} (hkey : BareKey text segment) : Item text segment
  | bracket {text : List Char} {segment : Segment} (hbracket : Bracket text segment) :
      Item text segment

inductive Tail : List Char → Segment → Prop
  | key {text : List Char} {segment : Segment} (hkey : BareKey text segment) :
      Tail ('.' :: text) segment
  | bracket {text : List Char} {segment : Segment} (hbracket : Bracket text segment) :
      Tail text segment

inductive Tails : List Char → List Segment → Prop
  | nil : Tails [] []
  | cons {text more : List Char} {segment : Segment} {segments : List Segment}
      (htail : Tail text segment) (hmore : Tails more segments) :
      Tails (text ++ more) (segment :: segments)

/-- The texts of paths, with the segments that they name. -/
inductive Written : List Char → List Segment → Prop
  | root : Written [] []
  | path {text more : List Char} {segment : Segment} {segments : List Segment}
      (hitem : Item text segment) (hmore : Tails more segments) :
      Written (text ++ more) (segment :: segments)

theorem bracket_iff {text : List Char} {segment : Segment} :
    Bracket text segment ↔
      (∃ quote key, text = '[' :: quote :: (key ++ [quote, ']']) ∧ IsQuote quote ∧ quote ∉ key ∧
        segment = .key (String.ofList key)) ∨
      ∃ inner position, text = '[' :: (inner ++ [']']) ∧ ']' ∉ inner ∧
        (∀ c, inner.head? = some c → ¬ IsQuote c) ∧ IsIndexText inner position ∧
        segment = .index position := by
  constructor
  · rintro (⟨hquote, hkey⟩ | ⟨hclose, hquote, hindex⟩)
    · exact Or.inl ⟨_, _, rfl, hquote, hkey, rfl⟩
    · exact Or.inr ⟨_, _, rfl, hclose, hquote, hindex, rfl⟩
  · rintro (⟨quote, key, rfl, hquote, hkey, rfl⟩ |
      ⟨inner, position, rfl, hclose, hquote, hindex, rfl⟩)
    · exact .quoted hquote hkey
    · exact .index hclose hquote hindex

/-- What stands between brackets is an index exactly if it reads as a word once it is trimmed. -/
theorem isIndexText_iff {inner : List Char} {position : Nat} :
    IsIndexText inner position ↔
      Text.readUnsigned? 64 10 (Text.trim inner) = some position := by
  rw [Text.readUnsigned?_ten_eq_some_iff]
  constructor
  · rintro ⟨before, sign, digits, after, rfl, hbefore, hafter, hsign, hne, hdigits, hvalue⟩
    have hcore : ∀ c ∈ sign ++ digits, Text.isBlank c = false := by
      intro c hmem
      rcases List.mem_append.mp hmem with hc | hc
      · rcases hsign with rfl | rfl
        · cases hc
        · rw [List.mem_singleton.mp hc]
          decide
      · exact Text.isBlank_eq_false_of_isDigit (hdigits c hc)
    rw [Text.trim_append (List.append_ne_nil_of_right_ne_nil sign hne) hbefore hcore hafter]
    exact ⟨sign, digits, rfl, hsign, hne, hdigits, hvalue⟩
  · rintro ⟨sign, digits, hsplit, hrest⟩
    obtain ⟨before, after, hinner, hbefore, hafter⟩ := Text.exists_blanks_trim inner
    exact ⟨before, sign, digits, after, hsplit ▸ hinner, hbefore, hafter, hrest⟩

theorem char_cases (c : Char) : c = '.' ∨ c = '[' ∨ c = ']' ∨ IsPlain c := by
  by_cases hdot : c = '.'
  · exact Or.inl hdot
  by_cases hopen : c = '['
  · exact Or.inr (Or.inl hopen)
  by_cases hclose : c = ']'
  · exact Or.inr (Or.inr (Or.inl hclose))
  · exact Or.inr (Or.inr (Or.inr ⟨hdot, hopen, hclose⟩))

/-! ### Indices are words -/

section Words

variable {text : List Char} {position : Nat} {segments : List Segment}

theorem Bracket.lt_two_pow (hbracket : Bracket text (.index position)) : position < 2 ^ 64 := by
  cases hbracket with
  | index _ _ hindex =>
      obtain ⟨-, -, -, -, -, -, -, -, -, -, -, hword⟩ := hindex
      exact hword

theorem Item.lt_two_pow (hitem : Item text (.index position)) : position < 2 ^ 64 := by
  cases hitem with
  | key hkey => cases hkey
  | bracket hbracket => exact hbracket.lt_two_pow

theorem Tail.lt_two_pow (htail : Tail text (.index position)) : position < 2 ^ 64 := by
  cases htail with
  | key hkey => cases hkey
  | bracket hbracket => exact hbracket.lt_two_pow

theorem Tails.lt_two_pow (htails : Tails text segments) (hmem : .index position ∈ segments) :
    position < 2 ^ 64 := by
  induction htails with
  | nil => cases hmem
  | cons htail _ ih =>
      rcases List.mem_cons.mp hmem with rfl | hmem
      · exact htail.lt_two_pow
      · exact ih hmem

/-- The grammar has no index that is not a word. -/
theorem Written.lt_two_pow (hwritten : Written text segments) (hmem : .index position ∈ segments) :
    position < 2 ^ 64 := by
  cases hwritten with
  | root => cases hmem
  | path hitem hmore =>
      rcases List.mem_cons.mp hmem with rfl | hmem
      · exact hitem.lt_two_pow
      · exact hmore.lt_two_pow hmem

end Words

end Reshape.Path
