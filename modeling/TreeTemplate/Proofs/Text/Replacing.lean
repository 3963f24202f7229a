import TreeTemplate.Text.Basic

/-!
# Replacing

How a replacement gets through a text piece by piece: an occurrence is replaced as a whole, and a
character with which no occurrence begins is kept. Where the text to be replaced is one character,
each character is replaced on its own.
-/
set_option autoImplicit false

namespace TreeTemplate.Text

theorem replaceAll_singleton (needle : Char) (replacement text : Text) :
    replaceAll [needle] replacement text =
      text.flatMap fun character => if character = needle then replacement else [character] := by
  induction text with
  | nil => rfl
  | cons head rest ih =>
    rw [replaceAll] at ih ⊢
    by_cases same : head = needle
    · subst same
      simp [replaceFrom, List.isPrefixOf, ih]
    · have apart : needle ≠ head := fun equal => same equal.symm
      simp [replaceFrom, List.isPrefixOf, same, apart, ih]

theorem replaceFrom_skip (needle replacement passed rest : Text) :
    replaceFrom needle replacement passed.length (passed ++ rest) =
      replaceAll needle replacement rest := by
  induction passed with
  | nil => rfl
  | cons first others ih => exact ih

theorem replaceAll_occurrence {needle : Text} (filled : needle ≠ []) (replacement rest : Text) :
    replaceAll needle replacement (needle ++ rest) =
      replacement ++ replaceAll needle replacement rest := by
  obtain ⟨first, others, rfl⟩ := List.exists_cons_of_ne_nil filled
  have isPrefix : (first :: others).isPrefixOf (first :: (others ++ rest)) = true :=
    List.isPrefixOf_iff_prefix.mpr ⟨rest, rfl⟩
  rw [List.cons_append, replaceAll, replaceFrom, if_pos isPrefix]
  exact congrArg (replacement ++ ·) (replaceFrom_skip (first :: others) replacement others rest)

theorem replaceAll_kept {needle : Text} {head : Char} {rest : Text}
    (absent : needle.isPrefixOf (head :: rest) = false) (replacement : Text) :
    replaceAll needle replacement (head :: rest) =
      head :: replaceAll needle replacement rest := by
  rw [replaceAll, replaceFrom, if_neg (by simp [absent])]
  rfl

/-- Characters with which the needle does not begin are kept. -/
theorem replaceAll_run {first : Char} {others run : Text} (absent : first ∉ run)
    (replacement rest : Text) :
    replaceAll (first :: others) replacement (run ++ rest) =
      run ++ replaceAll (first :: others) replacement rest := by
  induction run with
  | nil => rfl
  | cons head tail ih =>
    rw [List.mem_cons, not_or] at absent
    have apart : (first :: others).isPrefixOf (head :: (tail ++ rest)) = false := by
      simp [List.isPrefixOf, absent.1]
    rw [List.cons_append, replaceAll_kept apart, ih absent.2, List.cons_append]

end TreeTemplate.Text
