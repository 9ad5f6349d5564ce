import Reshape.Proofs.Filter.Slice
import Reshape.Proofs.Text.Blank
import Reshape.Registry

/-!
# Words given as text

An argument of a token is always text, so that a filter may get a whole number in two forms. Both
are read as the same word, all the way to the least one, and a filter that reads its arguments as
words cannot tell them apart, whatever other arguments it has.
-/

namespace Reshape

/-- A text of a whole number: its decimal form, perhaps behind a plus sign if it is not negative,
and perhaps with blanks around it. -/
def IsWordText (n : Int) (text : String) : Prop :=
  ∃ before sign after : String, text = before ++ sign ++ toString n ++ after ∧
    (∀ c ∈ before.toList, Text.isBlank c = true) ∧ (∀ c ∈ after.toList, Text.isBlank c = true) ∧
    (sign = "" ∨ sign = "+" ∧ 0 ≤ n)

namespace Text

variable {n : Int} {sign : List Char}

theorem isBlank_eq_false_of_mem_toString (n : Int) :
    ∀ c ∈ (toString n).toList, isBlank c = false := by
  intro c hmem
  rw [toList_toString_int, List.mem_append] at hmem
  rcases hmem with hminus | hdigit
  · split at hminus
    · rw [List.mem_singleton.mp hminus]
      decide
    · cases hminus
  · exact isBlank_eq_false_of_isDigit (isDigit_toDigits _ c hdigit)

theorem readSigned?_trim {text : String} (hfits : fitsSigned 64 n = true)
    (htext : IsWordText n text) : readSigned? 64 10 (trim text.toList) = some n := by
  obtain ⟨before, sign, after, rfl, hbefore, hafter, hsign⟩ := htext
  have hsigned : sign.toList = [] ∨ sign.toList = ['+'] ∧ 0 ≤ n := by
    rcases hsign with rfl | ⟨rfl, hnonneg⟩
    · exact Or.inl rfl
    · exact Or.inr ⟨rfl, hnonneg⟩
  have hcore : ∀ c ∈ sign.toList ++ (toString n).toList, isBlank c = false := by
    refine List.forall_mem_append.mpr ⟨?_, isBlank_eq_false_of_mem_toString n⟩
    rcases hsigned with hsigned | ⟨hsigned, -⟩
    · rw [hsigned]
      exact nofun
    · rw [hsigned]
      exact List.forall_mem_singleton.mpr (by decide)
  have hne : sign.toList ++ (toString n).toList ≠ [] := by
    rw [toList_toString_int]
    exact List.append_ne_nil_of_right_ne_nil _
      (List.append_ne_nil_of_right_ne_nil _ Nat.toDigits_ne_nil)
  have hsplit : (before ++ sign ++ toString n ++ after).toList =
      before.toList ++ (sign.toList ++ (toString n).toList) ++ after.toList := by
    simp only [String.toList_append, List.append_assoc]
  rw [hsplit, trim_append hne hbefore hcore hafter, readSigned?_toString hfits hsigned]

end Text

namespace Filter

variable {n : Int} {arg other : Arg}

/-! ### Filters that read words -/

/-- Nothing of the arguments counts but the words that they are read as. -/
def ReadsWords (run : (input source : Value) → List Arg → Outcome) : Prop :=
  ∀ input source args others, (∀ position, word? args position = word? others position) →
    run input source args = run input source others

theorem readsWords_child : ReadsWords child := by
  intro input source args others hwords
  rw [child, child, hwords]

theorem readsWords_slice : ReadsWords slice := by
  intro input source args others hwords
  simp only [slice, hwords]

theorem readsWords_toInt : ReadsWords toInt := by
  intro input source args others hwords
  rw [toInt, toInt, hwords]

theorem word?_append_cons (hread : arg.ReadsAs n) (hother : other.ReadsAs n)
    (before after : List Arg) (position : Nat) :
    word? (before ++ arg :: after) position = word? (before ++ other :: after) position := by
  by_cases hplace : position = before.length
  · have hfound : ∀ found : Arg, (before ++ found :: after)[position]? = some found := by
      simp [hplace]
    rw [hread _ _ (hfound arg), hother _ _ (hfound other)]
  · have hbeside : (before ++ arg :: after)[position]? = (before ++ other :: after)[position]? := by
      grind
    rw [word?, word?, value?, value?, hbeside]

theorem invoke_append_cons {filter : Filter} (hfilter : ReadsWords filter.run)
    (hread : arg.ReadsAs n) (hother : other.ReadsAs n) (before after : List Arg)
    (input source : Value) :
    filter.invoke input source (before ++ arg :: after) =
      filter.invoke input source (before ++ other :: after) := by
  have hlength : (before ++ arg :: after).length = (before ++ other :: after).length := by
    simp
  rw [invoke, invoke, hlength,
    hfilter _ _ _ _ fun position => word?_append_cons hread hother before after position]

/-- The filters of the library with arguments that are all words. -/
def wordNames : List String :=
  ["child", "nth", "slice", "toInt"]

theorem exists_get?_of_mem_wordNames {name : String} (hname : name ∈ wordNames) :
    ∃ filter, Registry.standard.get? name = some filter ∧ ReadsWords filter.run := by
  simp only [wordNames, List.mem_cons, List.not_mem_nil, or_false] at hname
  rcases hname with rfl | rfl | rfl | rfl
  · exact ⟨_, rfl, readsWords_child⟩
  · exact ⟨_, rfl, readsWords_child⟩
  · exact ⟨_, rfl, readsWords_slice⟩
  · exact ⟨_, rfl, readsWords_toInt⟩

/-- **Words and their texts are the same argument.** Wherever a filter that takes words is given a
signed word, a text of that word in its place leaves the outcome as it is, be it a value or an
error. The other arguments, if there are any, may have any form. -/
theorem invoke_wordText (hfits : Text.fitsSigned 64 n = true) {text : String}
    (htext : IsWordText n text) {name : String} (hname : name ∈ wordNames)
    (before after : List Arg) (input source : Value) :
    Registry.standard.invoke name input source (before ++ .ofText text :: after) =
      Registry.standard.invoke name input source (before ++ .value (.integer n) :: after) := by
  obtain ⟨filter, hget, hfilter⟩ := exists_get?_of_mem_wordNames hname
  rw [Registry.invoke, Registry.invoke, hget]
  exact invoke_append_cons hfilter (readsAs_ofText (Text.readSigned?_trim hfits htext))
    (readsAs_integer hfits) before after input source

/-- A slice from the least word, between a wide blank and a tab, up to a bound given as text. -/
theorem invoke_wordText_least_word :
    let least : Int := -2 ^ 63
    let text := "\u3000-9223372036854775808\t"
    let input : Value := .string "añ日😀"
    Text.fitsSigned 64 least = true ∧ IsWordText least text ∧ "slice" ∈ wordNames ∧
      Registry.standard.invoke "slice" input .null [.ofText text, .ofText " +3"] =
        Registry.standard.invoke "slice" input .null [.value (.integer least), .ofText " +3"] := by
  intro least text input
  have hfits : Text.fitsSigned 64 least = true := by
    decide
  have htext : IsWordText least text :=
    ⟨"\u3000", "", "\t", by decide, List.forall_mem_singleton.mpr (by decide),
      List.forall_mem_singleton.mpr (by decide), Or.inl rfl⟩
  have hname : "slice" ∈ wordNames := by
    decide
  exact ⟨hfits, htext, hname, invoke_wordText hfits htext hname [] [.ofText " +3"] input .null⟩

end Filter

end Reshape
