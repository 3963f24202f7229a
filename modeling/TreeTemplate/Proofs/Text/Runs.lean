import TreeTemplate.Text.Blank

/-!
# Runs of characters

A run of characters of a class is taken as a whole where the class ends behind it. Trimming is a case
of this at either end of a text.
-/
set_option autoImplicit false

namespace TreeTemplate.Text

def EndsBefore (inClass : Char → Bool) (rest : Text) : Prop :=
  ∀ character, rest.head? = some character → inClass character = false

theorem endsBefore_nil (inClass : Char → Bool) : EndsBefore inClass [] := by
  intro character impossible
  cases impossible

theorem endsBefore_cons {inClass : Char → Bool} {first : Char} {rest : Text}
    (isOut : inClass first = false) : EndsBefore inClass (first :: rest) := by
  intro character isFirst
  obtain rfl := Option.some.inj isFirst
  exact isOut

instance decidableEndsBefore (inClass : Char → Bool) (rest : Text) :
    Decidable (EndsBefore inClass rest) :=
  match rest with
  | [] => isTrue (endsBefore_nil inClass)
  | first :: _ =>
    if isOut : inClass first = false then isTrue (endsBefore_cons isOut)
    else isFalse fun ends => isOut (ends first rfl)

section Runs
variable {inClass : Char → Bool} {run rest : Text}

theorem endsBefore_append (ends : EndsBefore inClass run) (filled : run ≠ []) :
    EndsBefore inClass (run ++ rest) := by
  obtain ⟨first, others, rfl⟩ := List.exists_cons_of_ne_nil filled
  exact endsBefore_cons (ends first rfl)

theorem takeWhile_run (inside : ∀ character ∈ run, inClass character = true)
    (ends : EndsBefore inClass rest) : (run ++ rest).takeWhile inClass = run := by
  rw [List.takeWhile_append_of_pos inside]
  cases rest with
  | nil => exact List.append_nil run
  | cons first others => simp [ends first rfl]

theorem dropWhile_run (inside : ∀ character ∈ run, inClass character = true)
    (ends : EndsBefore inClass rest) : (run ++ rest).dropWhile inClass = rest := by
  rw [List.dropWhile_append_of_pos inside]
  cases rest with
  | nil => rfl
  | cons first others => simp [ends first rfl]

theorem endsBefore_dropWhile (text : Text) : EndsBefore inClass (text.dropWhile inClass) := by
  intro character isFirst
  induction text with
  | nil => cases isFirst
  | cons first others ih =>
    rw [List.dropWhile_cons] at isFirst
    split at isFirst
    · exact ih isFirst
    · rename_i isOut
      obtain rfl := Option.some.inj isFirst
      exact Bool.eq_false_iff.mpr isOut

end Runs

def IsBlanks (run : Text) : Prop :=
  ∀ character ∈ run, isBlank character = true

theorem isBlanks_append {left right : Text} (first : IsBlanks left) (second : IsBlanks right) :
    IsBlanks (left ++ right) :=
  List.forall_mem_append.mpr ⟨first, second⟩

structure IsTrimmed (text : Text) : Prop where
  filled : text ≠ []
  starts : EndsBefore isBlank text
  ends : EndsBefore isBlank text.reverse

theorem trim_blanks {run : Text} (blanks : IsBlanks run) : trim run = [] := by
  have nothing := dropWhile_run blanks (endsBefore_nil isBlank)
  rw [List.append_nil] at nothing
  rw [trim, trimStart, nothing]
  rfl

theorem trim_around {before content behind : Text} (blanksBefore : IsBlanks before)
    (trimmed : IsTrimmed content) (blanksBehind : IsBlanks behind) :
    trim (before ++ (content ++ behind)) = content := by
  have start : trimStart (before ++ (content ++ behind)) = content ++ behind :=
    dropWhile_run blanksBefore (endsBefore_append trimmed.starts trimmed.filled)
  have reversed : IsBlanks behind.reverse := by
    intro character member
    exact blanksBehind character (List.mem_reverse.mp member)
  rw [trim, start, trimEnd, List.reverse_append, dropWhile_run reversed trimmed.ends,
    List.reverse_reverse]

theorem IsTrimmed.trim_eq {text : Text} (trimmed : IsTrimmed text) : trim text = text := by
  have nothing : IsBlanks [] := List.forall_mem_nil _
  have whole := trim_around nothing trimmed nothing
  rwa [List.nil_append, List.append_nil] at whole

theorem trim_of_no_blank {text : Text} (noBlank : ∀ character ∈ text, isBlank character = false) :
    trim text = text := by
  by_cases filled : text = []
  · rw [filled]
    rfl
  · refine IsTrimmed.trim_eq ⟨filled, ?_, ?_⟩
    · exact fun character isFirst => noBlank character (List.mem_of_head? isFirst)
    · intro character isFirst
      exact noBlank character (List.mem_reverse.mp (List.mem_of_head? isFirst))

/-- A text is what trimming leaves of it, between blanks. -/
theorem trim_parts (run : Text) :
    ∃ before behind, run = before ++ (trim run ++ behind) ∧ IsBlanks before ∧ IsBlanks behind ∧
      (trim run ≠ [] → IsTrimmed (trim run)) := by
  have front : run.takeWhile isBlank ++ trimStart run = run := List.takeWhile_append_dropWhile
  generalize shape : trimStart run = kept at front
  have back : trimEnd kept ++ (kept.reverse.takeWhile isBlank).reverse = kept := by
    rw [trimEnd, ← List.reverse_append, List.takeWhile_append_dropWhile, List.reverse_reverse]
  refine ⟨run.takeWhile isBlank, (kept.reverse.takeWhile isBlank).reverse, ?_, ?_, ?_, ?_⟩
  · rw [trim, shape, back, front]
  · exact List.all_eq_true.mp List.all_takeWhile
  · intro character member
    exact List.all_eq_true.mp List.all_takeWhile character (List.mem_reverse.mp member)
  · intro filled
    rw [trim, shape] at filled ⊢
    refine ⟨filled, ?_, ?_⟩
    · intro character isFirst
      have starts : EndsBefore isBlank kept := shape ▸ endsBefore_dropWhile run
      refine starts character ?_
      rw [← back, List.head?_append, isFirst]
      rfl
    · rw [trimEnd, List.reverse_reverse]
      exact endsBefore_dropWhile _

end TreeTemplate.Text
