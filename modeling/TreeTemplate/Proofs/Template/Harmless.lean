import TreeTemplate.Proofs.Template.Filling
import TreeTemplate.Proofs.Template.Skeleton

/-!
# Harmless segments

Segments of which no text can be taken for code: names without special characters, values, literals,
and character data that a line break ends. The text of such segments holds exactly the placeholders
that the segments stand for.
-/
set_option autoImplicit false

namespace TreeTemplate

open Placeholder

variable {ι ω : Type}

def IsValue (expression : Text) : Prop :=
  (∃ flag, expression = boolText flag) ∨ ∃ number : Number, expression = number.scriptText

namespace Segment

noncomputable def fillings (named : SortedMap Text (Provider ι)) (bound heard : Nat) :
    Segment ι ω → List Filling
  | .fixed _ => []
  | .constant expression => [.constant expression]
  | .literal content => [.literal (content.flatMap literalCharacter)]
  | .binding _ => [.reference (syntheticName named bound)]
  | .listener _ _ => [.call (functionName heard)]

/-- Nothing in the segment can be taken for code, whatever stands behind it. -/
def IsHarmless : Segment ι ω → Prop
  | .fixed text => IsInert text
  | .constant expression => IsValue expression
  | .literal _ => True
  | .binding own => IsInert own.mark ∧ IsInert own.name
  | .listener event own => IsInert event ∧ own.arguments = none

end Segment

noncomputable def fillingsOf (named : SortedMap Text (Provider ι)) :
    Nat → Nat → List (Segment ι ω) → List Filling
  | _, _, [] => []
  | bound, heard, segment :: rest =>
    segment.fillings named bound heard ++
      fillingsOf named (bound + segment.bindings.length) (heard + segment.listeners.length) rest

def StartsLine : List (Segment ι ω) → Prop
  | [] => True
  | .fixed text :: _ => text.head? = some '\n'
  | _ => False

def Harmless : List (Segment ι ω) → Prop
  | [] => True
  | segment :: rest =>
    (segment.IsHarmless ∨ ∃ text, segment = .fixed text ∧ IsData text ∧ StartsLine rest) ∧
      Harmless rest

theorem harmless_append {left right : List (Segment ι ω)}
    (first : ∀ segment ∈ left, segment.IsHarmless) (second : Harmless right) :
    Harmless (left ++ right) := by
  induction left with
  | nil => exact second
  | cons segment rest ih =>
    rw [List.forall_mem_cons] at first
    exact ⟨Or.inl first.1, ih first.2⟩

theorem line_of_startsLine (named : SortedMap Text (Provider ι)) (bound heard : Nat)
    (segments : List (Segment ι ω)) (starts : StartsLine segments) :
    ∃ behind, numbered named bound heard segments ++ ['\n'] = '\n' :: behind := by
  cases segments with
  | nil => exact ⟨[], rfl⟩
  | cons segment rest =>
    cases segment with
    | fixed text =>
      obtain ⟨line, rfl⟩ := List.head?_eq_some_iff.mp starts
      exact ⟨_, rfl⟩
    | constant expression => exact absurd starts id
    | literal content => exact absurd starts id
    | binding own => exact absurd starts id
    | listener event own => exact absurd starts id

theorem encodeLiteral_eq (content : Text) :
    encodeLiteral content =
      placeholder (Filling.literal (content.flatMap literalCharacter)).body := by
  simp [encodeLiteral, placeholder, literalOpening, literalClosing, placeholderOpening,
    Filling.body_literal]

theorem derives_constant (expression : Text) (isValue : IsValue expression) :
    Derives .expression (Filling.constant expression).body := by
  rcases isValue with ⟨flag, rfl⟩ | ⟨number, rfl⟩
  · exact derives_bare (isBareText_boolText flag)
  · exact derives_bare (isBareText_scriptText number)

theorem written_binding (named : SortedMap Text (Provider ι)) (bound heard : Nat)
    (own : DynamicBinding ι) :
    (Segment.binding own : Segment ι ω).written named bound heard =
      ([' '] ++ own.mark ++ own.name ++ ['=']) ++
        placeholder (Filling.reference (syntheticName named bound)).body := by
  simp only [Segment.written, itemReference, Filling.body_reference, List.append_assoc,
    List.cons_append, List.nil_append]

theorem listenerText_none (function : Text) :
    listenerText function none = (Filling.call function).body := rfl

theorem written_listener (named : SortedMap Text (Provider ι)) (bound heard : Nat) (event : Text)
    (own : Listener ι ω) (noArguments : own.arguments = none) :
    (Segment.listener event own).written named bound heard =
      ([' ', '@'] ++ event ++ ['=']) ++ placeholder (Filling.call (functionName heard)).body := by
  rw [Segment.written, noArguments, listenerText_none]
  simp only [List.append_assoc, List.cons_append, List.nil_append]

section Holds
variable (named : SortedMap Text (Provider ι)) {rest : Text} {fillings : List Filling}

theorem Segment.IsHarmless.holds {segment : Segment ι ω} (harmless : segment.IsHarmless)
    (bound heard : Nat) (behind : Holds rest fillings) :
    Holds (segment.written named bound heard ++ rest)
      (segment.fillings named bound heard ++ fillings) := by
  cases segment with
  | fixed text => exact Holds.inert harmless behind
  | constant expression => exact Holds.placeholder (derives_constant expression harmless) behind
  | literal content =>
    rw [written, encodeLiteral_eq]
    exact Holds.placeholder (derives_literal content) behind
  | binding own =>
    obtain ⟨mark, name⟩ := harmless
    have reads := Holds.placeholder (derives_reference (Nat.nth (IsFree named) bound)) behind
    have inert : IsInert ([' '] ++ own.mark ++ own.name ++ ['=']) :=
      isInert_append (isInert_append (isInert_append (by decide) mark) name) (by decide)
    rw [written_binding, List.append_assoc]
    exact Holds.inert inert reads
  | listener event own =>
    obtain ⟨isInert, noArguments⟩ := harmless
    have calls := Holds.placeholder (derives_call heard) behind
    have inert : IsInert ([' ', '@'] ++ event ++ ['=']) :=
      isInert_append (isInert_append (by decide) isInert) (by decide)
    rw [written_listener named bound heard event own noArguments, List.append_assoc]
    exact Holds.inert inert calls

/-- The text of harmless segments holds their placeholders. The induction is on the segments, read
from the end of the template. -/
theorem holds_numbered (segments : List (Segment ι ω)) (harmless : Harmless segments)
    (bound heard : Nat) :
    Holds (numbered named bound heard segments ++ ['\n'])
      (fillingsOf named bound heard segments) := by
  induction segments generalizing bound heard with
  | nil => exact Holds.plain (by decide) (by decide) (by simp) Holds.nil
  | cons segment rest ih =>
    obtain ⟨first, later⟩ := harmless
    have behind := ih later (bound + segment.bindings.length) (heard + segment.listeners.length)
    rw [numbered, fillingsOf, List.append_assoc]
    rcases first with isHarmless | ⟨text, rfl, isData, starts⟩
    · exact isHarmless.holds named bound heard behind
    · obtain ⟨line, same⟩ := line_of_startsLine named (bound + 0) (heard + 0) rest starts
      change Holds (numbered named (bound + 0) (heard + 0) rest ++ ['\n']) _ at behind
      rw [same] at behind
      change Holds (text ++ (numbered named (bound + 0) (heard + 0) rest ++ ['\n'])) _
      rw [same]
      exact (holds_data isData behind.behind_line).1

end Holds

section Members
variable (named : SortedMap Text (Provider ι))

/-- A placeholder stands for one of the segments, numbered by those before it. -/
theorem split_of_mem_fillingsOf (segments : List (Segment ι ω)) (bound heard : Nat)
    (filling : Filling) (member : filling ∈ fillingsOf named bound heard segments) :
    ∃ left segment right, segments = left ++ segment :: right ∧
      filling ∈ segment.fillings named (bound + (bindingsOf left).length)
        (heard + (listenersOf left).length) := by
  induction segments generalizing bound heard with
  | nil => cases member
  | cons first rest ih =>
    rcases List.mem_append.mp member with here | later
    · exact ⟨[], first, rest, rfl, here⟩
    · obtain ⟨left, segment, right, rfl, inside⟩ := ih _ _ later
      refine ⟨first :: left, segment, right, rfl, ?_⟩
      simp only [bindingsOf, listenersOf, List.flatMap_cons, List.length_append, ← Nat.add_assoc]
      exact inside

/-- A reference is written for a binding, under the name with the number of the binding. -/
theorem reference_mem_fillingsOf (segments : List (Segment ι ω)) (name : Text)
    (member : .reference name ∈ fillingsOf named 0 0 segments) :
    ∃ place binding, (bindingsOf segments)[place]? = some binding ∧
      name = syntheticName named place := by
  obtain ⟨left, segment, right, rfl, inside⟩ := split_of_mem_fillingsOf named segments 0 0 _ member
  cases segment with
  | binding own =>
    refine ⟨(bindingsOf left).length, own, ?_, by simpa [Segment.fillings] using inside⟩
    rw [bindingsOf_append, List.getElem?_append_right (Nat.le_refl _), Nat.sub_self]
    rfl
  | fixed text => cases inside
  | constant expression => simp [Segment.fillings] at inside
  | literal content => simp [Segment.fillings] at inside
  | listener event own => simp [Segment.fillings] at inside

/-- A call is written for a listener, under the name with the number of the listener. -/
theorem call_mem_fillingsOf (segments : List (Segment ι ω)) (name : Text)
    (member : .call name ∈ fillingsOf named 0 0 segments) :
    ∃ place event listener, (listenersOf segments)[place]? = some (event, listener) ∧
      name = functionName place := by
  obtain ⟨left, segment, right, rfl, inside⟩ := split_of_mem_fillingsOf named segments 0 0 _ member
  cases segment with
  | listener event own =>
    refine ⟨(listenersOf left).length, event, own, ?_, by simpa [Segment.fillings] using inside⟩
    rw [listenersOf_append, List.getElem?_append_right (Nat.le_refl _), Nat.sub_self]
    rfl
  | fixed text => cases inside
  | constant expression => simp [Segment.fillings] at inside
  | literal content => simp [Segment.fillings] at inside
  | binding own => simp [Segment.fillings] at inside

theorem constant_mem_fillingsOf (segments : List (Segment ι ω)) (expression : Text)
    (member : .constant expression ∈ fillingsOf named 0 0 segments) :
    .constant expression ∈ segments := by
  obtain ⟨left, segment, right, rfl, inside⟩ := split_of_mem_fillingsOf named segments 0 0 _ member
  cases segment with
  | constant own =>
    obtain rfl : expression = own := by simpa [Segment.fillings] using inside
    simp
  | fixed text => cases inside
  | literal content => simp [Segment.fillings] at inside
  | binding own => simp [Segment.fillings] at inside
  | listener event own => simp [Segment.fillings] at inside

theorem literal_mem_fillingsOf (segments : List (Segment ι ω)) (quoted : Text)
    (member : .literal quoted ∈ fillingsOf named 0 0 segments) :
    ∃ content : Text, quoted = content.flatMap literalCharacter := by
  obtain ⟨left, segment, right, rfl, inside⟩ := split_of_mem_fillingsOf named segments 0 0 _ member
  cases segment with
  | literal content => exact ⟨content, by simpa [Segment.fillings] using inside⟩
  | fixed text => cases inside
  | constant expression => simp [Segment.fillings] at inside
  | binding own => simp [Segment.fillings] at inside
  | listener event own => simp [Segment.fillings] at inside

theorem isValue_of_harmless (segments : List (Segment ι ω)) (harmless : Harmless segments)
    (expression : Text) (member : .constant expression ∈ segments) : IsValue expression := by
  induction segments with
  | nil => cases member
  | cons segment rest ih =>
    obtain ⟨first, harmlessRest⟩ := harmless
    rcases List.mem_cons.mp member with rfl | later
    · rcases first with isValue | ⟨text, same, _⟩
      · exact isValue
      · cases same
    · exact ih harmlessRest later

/-- Without their escapes, the literals are the contents of the literal segments. -/
theorem unescape_fillingsOf (segments : List (Segment ι ω)) (bound heard : Nat) :
    ((fillingsOf named bound heard segments).filterMap Filling.quoted?).map unescape =
      literalsOf segments := by
  induction segments generalizing bound heard with
  | nil => rfl
  | cons segment rest ih =>
    rw [fillingsOf, List.filterMap_append, List.map_append, ih, literalsOf, literalsOf]
    cases segment with
    | literal content => simp [Segment.fillings, Filling.quoted?, Segment.literal?, unescape_literal]
    | fixed text => rfl
    | constant expression => rfl
    | binding own => rfl
    | listener event own => rfl

end Members

end TreeTemplate
