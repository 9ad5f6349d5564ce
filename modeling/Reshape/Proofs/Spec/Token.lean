import Reshape.Spec

/-!
# Tokens and their texts

A token is its pieces, the name and then the arguments, and its text is the pieces with colons
between them. Reading splits at every colon, so that any text is shown again as it was, while only
tokens without colons in their pieces are read again from what they show.
-/

namespace Reshape.Token

theorem splitColons_eq_splitOn (cs : List Char) :
    (splitColons cs).1 :: (splitColons cs).2 = cs.splitOn ':' := by
  induction cs with
  | nil => rfl
  | cons c rest ih =>
      rw [List.splitOn_eq_splitOnP] at ih
      rw [splitColons, List.splitOn_eq_splitOnP, List.splitOnP_cons_eq_if_modifyHead, ← ih]
      by_cases hcolon : c = ':' <;> simp [hcolon]

def pieces (token : Token) : List (List Char) :=
  token.name.toList :: token.args.map String.toList

theorem pieces_injective {token other : Token} (hpieces : token.pieces = other.pieces) :
    token = other := by
  obtain ⟨hname, hargs⟩ := List.cons.inj hpieces
  have hname : token.name = other.name := String.toList_injective hname
  have hargs : token.args = other.args :=
    (List.map_inj_right fun _ _ heq => String.toList_injective heq).mp hargs
  cases token
  cases other
  rw [mk.injEq]
  exact ⟨hname, hargs⟩

theorem text_eq_intercalate (token : Token) :
    token.text = ":".intercalate (token.name :: token.args) := by
  obtain ⟨name, args⟩ := token
  rw [text]
  induction args generalizing name with
  | nil => rw [List.foldl_nil, String.intercalate_singleton]
  | cons arg rest ih =>
      rw [List.foldl_cons, ih, String.append_assoc, String.intercalate_cons_append,
        String.intercalate_cons_append, String.intercalate_cons_cons, String.append_assoc]

theorem toList_text (token : Token) : token.text.toList = [':'].intercalate token.pieces := by
  rw [text_eq_intercalate, String.toList_intercalate]
  rfl

theorem pieces_parse (text : String) : (parse text).pieces = text.toList.splitOn ':' := by
  rw [← splitColons_eq_splitOn]
  simp [parse, pieces, Function.comp_def]

theorem text_parse (text : String) : (parse text).text = text := by
  apply String.toList_injective
  rw [toList_text, pieces_parse, List.intercalate_splitOn]

def IsColonFree (token : Token) : Prop :=
  ':' ∉ token.name.toList ∧ ∀ arg ∈ token.args, ':' ∉ arg.toList

theorem parse_text {token : Token} (hfree : token.IsColonFree) : parse token.text = token := by
  have hpieces : ∀ piece ∈ token.pieces, ':' ∉ piece := by
    simpa [pieces, IsColonFree] using hfree
  apply pieces_injective
  rw [pieces_parse, toList_text, List.splitOn_intercalate ':' hpieces (List.cons_ne_nil _ _)]

end Reshape.Token
