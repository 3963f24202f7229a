import TreeTemplate.Proofs.Template.AllOrNothing
import TreeTemplate.Proofs.Template.Disabled

/-!
# Values with placeholders

The literals of an element whose placeholders are to be kept are its attribute values that hold some
and the strings among its properties. Writing the literals in interpolating mode warns of each such
value that leaves something open, in their order and of nothing else, and what each of them is encoded
as stands in what is written.
-/
set_option autoImplicit false

namespace TreeTemplate

open Placeholder

/-- A value whose placeholders are to be kept, and what is to stand around it. -/
structure Interpolated where
  opening : Text
  closing : Text
  value : Text

namespace Interpolated

def encoded (content : Interpolated) : Encoded :=
  encodeExpression content.opening content.closing content.value

def isRejected (content : Interpolated) : Bool :=
  (enclose? content.opening content.closing content.value).isNone

def inQuotes (value : Text) : Interpolated :=
  ⟨['\x22'], ['\x22'], value⟩

def inLiteral (value : Text) : Interpolated :=
  ⟨literalOpening, literalClosing, value⟩

theorem records_encoded (content : Interpolated) : content.encoded.records =
    if content.isRejected then [.unbalanced content.value] else [] := by
  rw [encoded, encodeExpression, isRejected]
  cases enclose? content.opening content.closing content.value <;> rfl

end Interpolated

def attributeContents (attributes : Entries Text Text) : List Interpolated :=
  (attributes.filter fun pair => Text.occurs placeholderOpening pair.2).map fun pair =>
    .inQuotes pair.2

def propertyContents (properties : Entries Text PropertyValue) : List Interpolated :=
  (properties.takeWhile fun pair => !pair.2.isNull).filterMap fun pair =>
    pair.2.string?.map .inLiteral

def warnings (contents : List Interpolated) : List LogRecord :=
  (contents.filter Interpolated.isRejected).map fun content => .unbalanced content.value

theorem warnings_append (first second : List Interpolated) :
    warnings (first ++ second) = warnings first ++ warnings second := by
  rw [warnings, List.filter_append, List.map_append]
  rfl

theorem warnings_cons (content : Interpolated) (rest : List Interpolated) :
    warnings (content :: rest) = content.encoded.records ++ warnings rest := by
  rw [warnings, List.filter_cons, Interpolated.records_encoded]
  split <;> rfl

theorem records_writeAttribute (name value : Text) :
    (writeAttribute true name value).records = warnings (attributeContents [(name, value)]) := by
  rw [writeAttribute]
  by_cases empty : value.isEmpty = true
  · rw [if_pos empty, List.isEmpty_iff.mp empty]
    rfl
  · rw [if_neg empty, encodeAttributeValue, if_pos rfl, encodeInterpolatedValue, attributeContents,
      List.filter_cons]
    split
    · rw [List.filter_nil, List.map_cons, warnings_cons]
      exact (List.append_nil _).symm
    · dsimp only
      split <;> rfl

theorem records_writeAttributes (interpolate : Bool) (attributes : Entries Text Text) :
    (writeAttributes interpolate attributes).records =
      if interpolate then warnings (attributeContents attributes) else [] := by
  induction attributes with
  | nil => cases interpolate <;> rfl
  | cons head rest ih =>
    obtain ⟨name, value⟩ := head
    rw [writeAttributes]
    dsimp only
    rw [ih]
    cases interpolate with
    | false =>
      rw [writeAttribute]
      split <;> rfl
    | true =>
      have parted : attributeContents ((name, value) :: rest) =
          attributeContents [(name, value)] ++ attributeContents rest := by
        rw [attributeContents, List.filter_cons, attributeContents, List.filter_cons]
        split <;> rfl
      rw [if_pos rfl, if_pos rfl, records_writeAttribute, parted, warnings_append]

theorem propertyContents_cons (name : Text) {value : PropertyValue}
    {rest : Entries Text PropertyValue} (notNull : value.isNull = false) :
    propertyContents ((name, value) :: rest) =
      (value.string?.map Interpolated.inLiteral).toList ++ propertyContents rest := by
  rw [propertyContents, List.takeWhile_cons]
  simp only [notNull, Bool.not_false, if_true, List.filterMap_cons]
  cases value.string? <;> rfl

theorem encodeProperty_string (interpolate : Bool) (name : Text) {value : PropertyValue}
    {content : Text} (isString : value.string? = some content) :
    encodeProperty interpolate name value = .ok (encodeStringProperty interpolate content) := by
  cases value with
  | string own =>
    obtain rfl := Option.some.inj isString
    rfl
  | json json =>
    cases json with
    | string own =>
      obtain rfl := Option.some.inj isString
      rfl
    | _ => cases isString
  | _ => cases isString

theorem records_encodeProperty {interpolate : Bool} {name : Text} {value : PropertyValue}
    {encoded : Encoded} (expressed : encodeProperty interpolate name value = .ok encoded) :
    encoded.records =
      if interpolate then warnings (value.string?.map Interpolated.inLiteral).toList else [] := by
  have string (content : Text) : (encodeStringProperty interpolate content).records =
      if interpolate then warnings [Interpolated.inLiteral content] else [] := by
    rw [encodeStringProperty]
    split
    · rw [warnings_cons]
      exact (List.append_nil _).symm
    · rfl
  have silent (text : Text) : (Encoded.silent text).records =
      if interpolate then warnings [] else [] := by
    cases interpolate <;> rfl
  cases value with
  | string content =>
    obtain rfl := Except.ok.inj expressed
    exact string content
  | json json =>
    cases json with
    | string content =>
      obtain rfl := Except.ok.inj expressed
      exact string content
    | null => cases expressed
    | _ =>
      obtain rfl := Except.ok.inj expressed
      exact silent _
  | _ =>
    obtain rfl := Except.ok.inj expressed
    exact silent _

theorem records_writeProperties (interpolate : Bool) (properties : Entries Text PropertyValue) :
    (writeProperties interpolate properties).1.records =
      if interpolate then warnings (propertyContents properties) else [] := by
  induction properties with
  | nil => cases interpolate <;> rfl
  | cons head rest ih =>
    obtain ⟨name, value⟩ := head
    rcases encodeProperty_isNull interpolate name value with
      ⟨isNull, failed⟩ | ⟨notNull, encoded, expressed⟩
    · rw [writeProperties, failed, propertyContents, List.takeWhile_cons]
      simp only [isNull, Bool.not_true, Bool.false_eq_true, if_false, List.filterMap_nil]
      cases interpolate <;> rfl
    · have own := records_encodeProperty expressed
      rw [writeProperties, expressed]
      dsimp only
      rw [own, ih, propertyContents_cons name notNull]
      cases interpolate with
      | false => rfl
      | true => rw [if_pos rfl, if_pos rfl, if_pos rfl, warnings_append]

theorem infix_writeAttributes {attributes : Entries Text Text} {content : Interpolated}
    (member : content ∈ attributeContents attributes) :
    content.encoded.text <:+: (writeAttributes true attributes).text := by
  induction attributes with
  | nil => cases member
  | cons head rest ih =>
    obtain ⟨name, value⟩ := head
    have behind (inside : content ∈ attributeContents rest) :
        content.encoded.text <:+: (writeAttributes true ((name, value) :: rest)).text :=
      (ih inside).trans (List.suffix_append _ _).isInfix
    rw [attributeContents, List.filter_cons] at member
    split at member
    · rename_i holds
      rcases List.mem_cons.mp member with rfl | inside
      · have filled : value.isEmpty = false := by
          cases value with
          | nil =>
            change Text.occurs placeholderOpening [] = true at holds
            exact absurd holds (by decide)
          | cons first others => rfl
        have own : (writeAttribute true name value).text =
            (' ' :: name ++ ['=']) ++ (Interpolated.inQuotes value).encoded.text := by
          rw [writeAttribute, filled, if_neg Bool.false_ne_true, encodeAttributeValue, if_pos rfl,
            encodeInterpolatedValue, if_pos holds]
          simp [Interpolated.encoded, Interpolated.inQuotes]
        have first : (Interpolated.inQuotes value).encoded.text <:+:
            (writeAttribute true name value).text := by
          rw [own]
          exact (List.suffix_append _ _).isInfix
        exact first.trans (List.prefix_append _ _).isInfix
      · exact behind inside
    · exact behind member

theorem infix_writeProperties {properties : Entries Text PropertyValue} {content : Interpolated}
    (member : content ∈ propertyContents properties)
    (complete : (writeProperties true properties).2 = none) :
    content.encoded.text <:+: (writeProperties true properties).1.text := by
  induction properties with
  | nil => cases member
  | cons head rest ih =>
    obtain ⟨name, value⟩ := head
    rcases encodeProperty_isNull true name value with
      ⟨isNull, failed⟩ | ⟨notNull, encoded, expressed⟩
    · rw [propertyContents, List.takeWhile_cons_of_neg (by simp [isNull])] at member
      cases member
    · rw [writeProperties, expressed] at complete ⊢
      dsimp only at complete ⊢
      rw [propertyContents_cons name notNull] at member
      rcases List.mem_append.mp member with isOwn | later
      · obtain ⟨text, isString, rfl⟩ := Option.map_eq_some_iff.mp (Option.mem_toList.mp isOwn)
        rw [encodeProperty_string true name isString] at expressed
        obtain rfl := Except.ok.inj expressed
        have same : (Interpolated.inLiteral text).encoded = encodeStringProperty true text := rfl
        rw [same]
        exact ⟨' ' :: '.' :: name ++ ['='], (writeProperties true rest).1.text, by simp⟩
      · exact (ih later complete).trans (List.suffix_append _ _).isInfix

end TreeTemplate
