import Reshape.Proofs.Text.Digits
import Reshape.Text.Blank

/-!
# Trimming

Trimming takes the blanks off both ends of a text and nothing else.
-/

namespace Reshape.Text

theorem exists_blanks_trim (cs : List Char) :
    ∃ before after, cs = before ++ trim cs ++ after ∧
      (∀ c ∈ before, isBlank c = true) ∧ ∀ c ∈ after, isBlank c = true := by
  have hleft : cs.takeWhile isBlank ++ trimLeft cs = cs := List.takeWhile_append_dropWhile
  have hright : trimRight (trimLeft cs) ++ ((trimLeft cs).reverse.takeWhile isBlank).reverse =
      trimLeft cs := by
    rw [trimRight, ← List.reverse_append, List.takeWhile_append_dropWhile, List.reverse_reverse]
  refine ⟨cs.takeWhile isBlank, ((trimLeft cs).reverse.takeWhile isBlank).reverse, ?_,
    fun c hmem => ?_, fun c hmem => ?_⟩
  · rw [trim, List.append_assoc, hright, hleft]
  · exact List.all_eq_true.mp List.all_takeWhile c hmem
  · exact List.all_eq_true.mp List.all_takeWhile c (List.mem_reverse.mp hmem)

/-- A text without blanks is all that is left of it between blanks. -/
theorem trim_append {before core after : List Char} (hne : core ≠ [])
    (hbefore : ∀ c ∈ before, isBlank c = true) (hcore : ∀ c ∈ core, isBlank c = false)
    (hafter : ∀ c ∈ after, isBlank c = true) : trim (before ++ core ++ after) = core := by
  have hdrop : ∀ {blanks text more : List Char}, (∀ c ∈ blanks, isBlank c = true) → text ≠ [] →
      (∀ c ∈ text, isBlank c = false) →
      (blanks ++ (text ++ more)).dropWhile isBlank = text ++ more := by
    intro blanks text more hblanks htext hclean
    obtain ⟨c, rest, rfl⟩ := List.exists_cons_of_ne_nil htext
    rw [List.dropWhile_append_of_pos hblanks, List.cons_append,
      List.dropWhile_cons_of_neg (by simp [hclean c (by simp)])]
  have hreverse : (core ++ after).reverse = after.reverse ++ (core.reverse ++ []) := by
    rw [List.reverse_append, List.append_nil]
  rw [trim, trimLeft, List.append_assoc, hdrop hbefore hne hcore, trimRight, hreverse,
    hdrop (by simpa using hafter) (by simpa using hne) (by simpa using hcore), List.append_nil,
    List.reverse_reverse]

theorem exists_blanks_trimLeft (cs : List Char) :
    ∃ blanks, cs = blanks ++ trimLeft cs ∧ ∀ c ∈ blanks, isBlank c = true :=
  ⟨cs.takeWhile isBlank, List.takeWhile_append_dropWhile.symm,
    List.all_eq_true.mp List.all_takeWhile⟩

theorem isBlank_of_head?_trimLeft {cs : List Char} {c : Char}
    (hhead : (trimLeft cs).head? = some c) : isBlank c = false := by
  have hfirst := List.head?_dropWhile_not isBlank cs
  rw [trimLeft] at hhead
  rw [hhead] at hfirst
  exact hfirst

theorem trimLeft_append {blanks rest : List Char} (hblanks : ∀ c ∈ blanks, isBlank c = true)
    (hrest : ∀ c, rest.head? = some c → isBlank c = false) : trimLeft (blanks ++ rest) = rest := by
  rw [trimLeft, List.dropWhile_append_of_pos hblanks]
  cases rest with
  | nil => rfl
  | cons c rest => rw [List.dropWhile_cons_of_neg (by simp [hrest c rfl])]

theorem isBlank_eq_false_of_isDigit {c : Char} (hdigit : c.isDigit = true) :
    isBlank c = false := by
  have hbounds := toNat_of_isDigit hdigit
  simp only [isBlank, blankRanges, List.any_cons, List.any_nil, Bool.or_false, Bool.or_eq_false_iff,
    Bool.and_eq_false_iff, decide_eq_false_iff_not]
  omega

theorem isBlank_eq_false_of_isAlpha {c : Char} (halpha : c.isAlpha = true) :
    isBlank c = false := by
  have hbounds : 65 ≤ c.toNat ∧ c.toNat ≤ 90 ∨ 97 ≤ c.toNat ∧ c.toNat ≤ 122 := by
    rcases Bool.or_eq_true_iff.mp halpha with hupper | hlower
    · exact Or.inl (of_decide_eq_true hupper)
    · obtain ⟨hfirst, hlast⟩ := Bool.and_eq_true_iff.mp hlower
      exact Or.inr ⟨of_decide_eq_true hfirst, of_decide_eq_true hlast⟩
  simp only [isBlank, blankRanges, List.any_cons, List.any_nil, Bool.or_false, Bool.or_eq_false_iff,
    Bool.and_eq_false_iff, decide_eq_false_iff_not]
  omega

end Reshape.Text
