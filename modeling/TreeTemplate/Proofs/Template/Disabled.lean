import TreeTemplate.Document.Blueprint
import TreeTemplate.Proofs.Template.DisabledTour
import TreeTemplate.Proofs.Template.Harmless
import TreeTemplate.Proofs.Template.Naming

/-!
# Disabled content

Where no content is interpolated, whatever the texts, the attribute values and the string properties
hold, a template has no placeholders but those that the compiler writes, and what could be taken for
code stands between the backticks of a literal.
-/
set_option autoImplicit false

namespace TreeTemplate

open Placeholder

variable {ι ω : Type}

theorem isInert_padding (depth : Nat) : IsInert (padding depth) := by
  intro character member
  rcases List.mem_cons.mp member with rfl | isBlank
  · decide
  · rw [List.eq_of_mem_replicate isBlank]
    decide

theorem mem_eraseAll {κ β : Type} [DecidableEq κ] (names : List κ) (entries : Entries κ β)
    (pair : κ × β) (member : pair ∈ Entries.eraseAll names entries) : pair ∈ entries := by
  induction names generalizing entries with
  | nil => exact member
  | cons name rest ih =>
    exact (Entries.erase_sublist name entries).subset (ih (Entries.erase name entries) member)

theorem mem_synthesize (document : Document) (id : NodeId)
    (policies : List (ActivationPolicy ι ω)) (taken : List Text) (pair : Text × Listener ι ω)
    (member : pair ∈ ActivationPolicy.synthesize document id policies taken) :
    ∃ policy ∈ policies, pair = (policy.event, policy.listener id) := by
  induction policies generalizing taken with
  | nil => cases member
  | cons policy rest ih =>
    rw [ActivationPolicy.synthesize] at member
    split at member
    · rcases List.mem_cons.mp member with same | later
      · exact ⟨policy, List.mem_cons_self, same⟩
      · obtain ⟨other, isOther, same⟩ := ih _ later
        exact ⟨other, List.mem_cons_of_mem _ isOther, same⟩
    · obtain ⟨other, isOther, same⟩ := ih _ member
      exact ⟨other, List.mem_cons_of_mem _ isOther, same⟩

theorem harmless_bindingSegments {mark : Text} {entries : Entries Text (Provider ι)}
    (isMark : IsInert mark) (names : ∀ name ∈ Entries.keys entries, IsInert name)
    (segment : Segment ι ω) (member : segment ∈ bindingSegments mark entries) :
    segment.IsHarmless := by
  obtain ⟨pair, isPair, rfl⟩ := List.mem_map.mp member
  exact ⟨isMark, names pair.1 (List.mem_map_of_mem isPair)⟩

theorem harmless_attributesSegments {attributes : Entries Text Text}
    (names : ∀ pair ∈ attributes, IsInert pair.1) (segment : Segment ι ω)
    (member : segment ∈ attributesSegments false attributes) : segment.IsHarmless := by
  obtain ⟨pair, isPair, inside⟩ := List.mem_flatMap.mp member
  have name : IsInert ([' '] ++ pair.1) := isInert_append (by decide) (names pair isPair)
  rw [attributeSegments] at inside
  split at inside
  · rw [List.mem_singleton.mp inside]
    exact name
  · rw [if_neg Bool.false_ne_true] at inside
    rcases List.mem_pair.mp inside with rfl | rfl
    · exact isInert_append name (by decide)
    · trivial

theorem harmless_propertySegment {value : PropertyValue} (isScalar : value.IsScalar) :
    (propertySegment false value : Segment ι ω).IsHarmless := by
  cases value with
  | bool flag => exact Or.inl ⟨flag, rfl⟩
  | number quantity => exact Or.inr ⟨quantity, rfl⟩
  | string content => trivial
  | json json =>
    cases json with
    | null => exact fun _ impossible => absurd impossible List.not_mem_nil
    | bool flag => exact Or.inl ⟨flag, rfl⟩
    | integer quantity => exact Or.inr ⟨Number.ofInt quantity, rfl⟩
    | float quantity => exact Or.inr ⟨Number.finite quantity, rfl⟩
    | string content => trivial
    | array items => exact absurd isScalar id
    | object fields => exact absurd isScalar id

theorem harmless_propertiesSegments {properties : Entries Text PropertyValue}
    (plain : ∀ pair ∈ properties, IsInert pair.1 ∧ pair.2.IsScalar) (segment : Segment ι ω)
    (member : segment ∈ propertiesSegments false properties) : segment.IsHarmless := by
  obtain ⟨pair, isPair, inside⟩ := List.mem_flatMap.mp member
  obtain ⟨name, isScalar⟩ := plain pair isPair
  rcases List.mem_pair.mp inside with rfl | rfl
  · have dotted : IsInert ([' ', '.'] ++ pair.1) := isInert_append (by decide) name
    exact isInert_append dotted (by decide)
  · exact harmless_propertySegment isScalar

theorem harmless_listenerSegments {listeners : Entries Text (Listener ι ω)}
    (plain : ∀ pair ∈ listeners, IsInert pair.1 ∧ pair.2.arguments = none) (segment : Segment ι ω)
    (member : segment ∈ listenerSegments listeners) : segment.IsHarmless := by
  obtain ⟨pair, isPair, rfl⟩ := List.mem_map.mp member
  exact plain pair isPair

section Stops
variable {surroundings : Surroundings ι ω}

theorem harmless_startSegments (document : Document) (depth : Nat) (id : NodeId) (element : Element)
    (plain : surroundings.IsPlainAt id element)
    (policies : ∀ policy ∈ surroundings.policies,
      IsInert policy.event ∧ ∀ id, (policy.listener id).arguments = none)
    (segment : Segment ι ω)
    (member : segment ∈ startSegments surroundings document depth id element false) :
    segment.IsHarmless := by
  simp only [startSegments, List.mem_append, List.mem_singleton] at member
  rcases member with (((((rfl | isAttribute) | isLiteral) | isProperty) | isValue) | isListener) | rfl
  · exact isInert_append (isInert_padding depth)
      (isInert_append (by decide : IsInert ['<']) plain.tag)
  · exact harmless_bindingSegments (by decide) plain.boundAttributes segment isAttribute
  · refine harmless_attributesSegments ?_ segment isLiteral
    intro pair isPair
    exact plain.attributes pair.1 (List.mem_map_of_mem (mem_eraseAll _ _ pair isPair))
  · exact harmless_bindingSegments (by decide) plain.boundProperties segment isProperty
  · refine harmless_propertiesSegments ?_ segment isValue
    intro pair isPair
    exact plain.properties pair (mem_eraseAll _ _ pair isPair)
  · refine harmless_listenerSegments ?_ segment isListener
    intro pair isPair
    rcases List.mem_append.mp isPair with own | added
    · exact plain.listeners pair own
    · obtain ⟨policy, isPolicy, rfl⟩ := mem_synthesize document id _ _ pair added
      obtain ⟨event, arguments⟩ := policies policy isPolicy
      exact ⟨event, arguments id⟩
  · exact (by decide : IsInert ['>'])

theorem encodeCharacterData_of_not_occurs (content : Text)
    (noOpening : Text.occurs placeholderOpening content = false) :
    encodeCharacterData content = escapeMarkup content := by
  rw [encodeCharacterData]
  · rintro rest rfl
    simp [placeholderOpening, Text.occurs, List.isPrefixOf] at noOpening
  · rintro rest rfl
    simp [placeholderOpening, Text.occurs, List.isPrefixOf] at noOpening

theorem isData_encodeCharacterData (content : Text) (safe : looksLikeCode content = false) :
    IsData (encodeCharacterData content) := by
  rw [looksLikeCode, Bool.or_eq_false_iff] at safe
  obtain ⟨noOpening, noBacktick⟩ := safe
  rw [encodeCharacterData_of_not_occurs content noOpening]
  refine isData_escapeMarkup (isData_of_not_occurs noOpening ?_)
  simpa using noBacktick

/-- What begins a line in a tour begins one in its skeleton. -/
theorem startsLine_skeleton (document : Document) (tour : List Stop)
    (sound : ∀ stop ∈ tour, stop.IsSound) (lineFirst : LineFirst tour) :
    StartsLine (skeleton surroundings document tour) := by
  cases tour with
  | nil => trivial
  | cons stop rest =>
    have starts := lineFirst stop rfl
    cases stop with
    | text depth interpolate content =>
      rw [skeleton, Stop.segments]
      split <;> rfl
    | enter depth id element inherited interpolate => rfl
    | leave depth tag childless =>
      cases childless with
      | false => rfl
      | true => exact absurd starts id
    | missing id => exact absurd (sound _ List.mem_cons_self) (fun impossible => impossible)
    | endless id => exact absurd (sound _ List.mem_cons_self) (fun impossible => impossible)

theorem harmless_skeleton
    (policies : ∀ policy ∈ surroundings.policies,
      IsInert policy.event ∧ ∀ id, (policy.listener id).arguments = none)
    (tour : List Stop) (plain : ∀ stop ∈ tour, stop.IsPlain surroundings)
    (sound : ∀ stop ∈ tour, stop.IsSound) (linesEnd : LinesEnd tour) (document : Document) :
    Harmless (skeleton surroundings document tour) := by
  induction tour generalizing document with
  | nil => trivial
  | cons stop rest ih =>
    rw [List.forall_mem_cons] at plain sound
    rw [skeleton]
    cases stop with
    | text depth interpolate content =>
      obtain ⟨lineFirst, linesEndRest⟩ := linesEnd
      have later := ih plain.2 sound.2 linesEndRest document
      obtain rfl : interpolate = false := plain.1
      have indented : (Segment.fixed (padding depth) : Segment ι ω).IsHarmless :=
        isInert_padding depth
      change Harmless (_ ++ skeleton surroundings document rest)
      rw [Stop.segments]
      split
      · exact ⟨Or.inl indented, Or.inl trivial, later⟩
      · rename_i safe
        have isData := isData_encodeCharacterData content (by simpa using safe)
        have starts : StartsLine (skeleton surroundings document rest) :=
          startsLine_skeleton document rest sound.2 lineFirst
        exact ⟨Or.inl indented, Or.inr ⟨_, rfl, isData, starts⟩, later⟩
    | enter depth id element inherited interpolate =>
      obtain ⟨⟨rfl, plainHere⟩, plainRest⟩ := plain
      exact harmless_append (harmless_startSegments _ depth id element plainHere policies)
        (ih plainRest sound.2 linesEnd _)
    | leave depth tag childless =>
      have closing : IsInert (['<', '/'] ++ tag ++ ['>']) :=
        isInert_append (isInert_append (by decide) plain.1) (by decide)
      refine harmless_append ?_ (ih plain.2 sound.2 linesEnd _)
      intro segment member
      rw [List.mem_singleton.mp member]
      cases childless with
      | false => exact isInert_append (isInert_padding depth) closing
      | true => exact closing
    | missing id => exact absurd sound.1 (fun impossible => impossible)
    | endless id => exact absurd sound.1 (fun impossible => impossible)

end Stops

def PropertyValue.string? : PropertyValue → Option Text
  | .string content => some content
  | .json (.string content) => some content
  | _ => none

/-- What an element writes as literals: its attribute values that are not empty, then the strings
among its properties. -/
def Element.contents (element : Element) : List Text :=
  (element.attributes.map Prod.snd).filter (fun value => !value.isEmpty) ++
    element.properties.filterMap fun pair => pair.2.string?

def Surroundings.contentsAt (surroundings : Surroundings ι ω) (document : Document) (id : NodeId) :
    List Text :=
  match document.node? id with
  | some (.element element) => (element.withoutBound (surroundings.metadata.ofNode id)).contents
  | some (.text content) => if looksLikeCode content then [content] else []
  | none => []

def Stop.contents (metadata : Metadata ι ω) : Stop → List Text
  | .text _ _ content => if looksLikeCode content then [content] else []
  | .enter _ id element _ _ => (element.withoutBound (metadata.ofNode id)).contents
  | _ => []

theorem literalsOf_attributesSegments (attributes : Entries Text Text) :
    literalsOf (attributesSegments false attributes : List (Segment ι ω)) =
      (attributes.map Prod.snd).filter fun value => !value.isEmpty := by
  induction attributes with
  | nil => rfl
  | cons head rest ih =>
    obtain ⟨name, value⟩ := head
    rw [attributesSegments, List.flatMap_cons, ← attributesSegments, literalsOf_append, ih,
      List.map_cons]
    cases value <;> rfl

theorem literal?_propertySegment (value : PropertyValue) :
    (propertySegment false value : Segment ι ω).literal? = value.string? := by
  cases value with
  | bool flag => rfl
  | number quantity => rfl
  | string content => rfl
  | json json => cases json <;> rfl

theorem literalsOf_propertiesSegments (properties : Entries Text PropertyValue) :
    literalsOf (propertiesSegments false properties : List (Segment ι ω)) =
      properties.filterMap fun pair => pair.2.string? := by
  induction properties with
  | nil => rfl
  | cons head rest ih =>
    have own : (propertySegment false head.2 : Segment ι ω).literal? = head.2.string? :=
      literal?_propertySegment head.2
    rw [propertiesSegments, List.flatMap_cons, ← propertiesSegments, literalsOf_append, ih,
      literalsOf, List.filterMap_cons_none rfl]
    cases isString : head.2.string? with
    | none =>
      rw [isString] at own
      rw [List.filterMap_cons_none own]
      simp only [List.filterMap_cons, isString]
      rfl
    | some content =>
      rw [isString] at own
      rw [List.filterMap_cons_some own]
      simp only [List.filterMap_cons, isString]
      rfl

section Contents
variable {surroundings : Surroundings ι ω}

theorem literalsOf_segments (document : Document) (stop : Stop)
    (plain : stop.IsPlain surroundings) :
    literalsOf (stop.segments surroundings document) = stop.contents surroundings.metadata := by
  cases stop with
  | text depth interpolate content =>
    obtain rfl : interpolate = false := plain
    rw [Stop.segments, Stop.contents]
    cases looksLikeCode content <;> rfl
  | enter depth id element inherited interpolate =>
    obtain ⟨rfl, _⟩ := plain
    have fixed (text : Text) : literalsOf [(Segment.fixed text : Segment ι ω)] = [] := rfl
    simp only [Stop.segments, startSegments, literalsOf_append, fixed, literalsOf_bindingSegments,
      literalsOf_listenerSegments, literalsOf_attributesSegments, literalsOf_propertiesSegments,
      List.nil_append, List.append_nil]
    rfl
  | leave depth tag childless => rfl
  | missing id => rfl
  | endless id => rfl

theorem literalsOf_skeleton (document : Document) (tour : List Stop)
    (plain : ∀ stop ∈ tour, stop.IsPlain surroundings) :
    literalsOf (skeleton surroundings document tour) =
      tour.flatMap (Stop.contents surroundings.metadata) := by
  induction tour generalizing document with
  | nil => rfl
  | cons stop rest ih =>
    rw [List.forall_mem_cons] at plain
    rw [skeleton, literalsOf_append, literalsOf_segments _ stop plain.1, ih _ plain.2,
      List.flatMap_cons]

/-- A sound tour meets the contents in the order of the walk. -/
theorem contents_of_sound_tour {document : Document} {roots occurrences : List NodeId}
    (visits : document.Visits roots occurrences)
    (sound : ∀ stop ∈ document.tour surroundings.metadata.interpolation roots, stop.IsSound) :
    (document.tour surroundings.metadata.interpolation roots).flatMap
        (Stop.contents surroundings.metadata) =
      occurrences.flatMap (surroundings.contentsAt document) := by
  have bounded := fun stop member => (sound stop member).isBounded
  refine flatMap_bounded_tour visits.preorder _ (surroundings.contentsAt document) ?_ ?_ ?_ ?_ _ _ _
    bounded
  · intro id missing
    rw [Surroundings.contentsAt, missing]
    rfl
  · intro id content depth interpolate found
    rw [Surroundings.contentsAt, found]
    rfl
  · intro id element depth inherited interpolate found
    rw [Surroundings.contentsAt, found]
    rfl
  · intro depth tag childless
    rfl

end Contents

/-! ## The template -/

/-- The compiler has written the placeholder: it refers to the property of a dynamic binding, calls
the function of a listener, holds a value, or holds a literal in which no placeholder opens. -/
def Filling.IsWritten (named : SortedMap Text (Provider ι)) (bindings : List (DynamicBinding ι))
    (listeners : Entries Text (Listener ι ω)) (compiled : CompiledTemplate ι ω) : Filling → Prop
  | .reference name => ∃ place binding, bindings[place]? = some binding ∧
      name = syntheticName named place ∧
      compiled.bindings.properties.find? name = some binding.provider
  | .call name => ∃ place event listener, listeners[place]? = some (event, listener) ∧
      name = functionName place ∧
      compiled.bindings.functions.find? name = some listener.handler
  | .constant expression => IsValue expression
  | .literal quoted => ∃ inner, IsRow true inner ∧ sources inner = quoted ∧ bodies inner = []

theorem writtenRow_of_quiet (items : List Item) (quiet : .plain '\x60' ∉ items) :
    writtenRow items = sources items := by
  induction items with
  | nil => rfl
  | cons item rest ih =>
    rw [List.mem_cons, not_or] at quiet
    rw [writtenRow_cons, sources_cons, ih quiet.2]
    congr 1
    cases item with
    | plain character =>
      have apart : character ≠ '\x60' := fun same => quiet.1 (by rw [same])
      rw [Item.written, if_neg apart]
      rfl
    | escaped character => rfl
    | placeholder body => rfl

/-- A text that holds some placeholders, and does not end in a brace, is enclosed as it is. -/
theorem Holds.enclosed {text : Text} {fillings : List Filling}
    (holds : Holds (text ++ ['\n']) fillings) (opening closing : Text) :
    enclose? opening closing (text ++ ['\n']) =
      some (opening ++ (text ++ ['\n']) ++ closing) := by
  obtain ⟨items, row, same, quiet, _⟩ := holds
  have mixed : ¬IsPlaceholder (sources items) := by
    rintro ⟨body, _, isPlaceholder⟩
    have ends : text ++ ['\n'] = '$' :: '{' :: body ++ ['}'] := same.symm.trans isPlaceholder
    have last := List.append_inj_right' ends rfl
    exact absurd last (by decide)
  rw [← same, enclose?_mixed opening closing items row mixed, writtenRow_of_quiet items quiet]

section Template
variable {surroundings : Surroundings ι ω} {named : SortedMap Text (Provider ι)}
  {segments : List (Segment ι ω)} {compiled : CompiledTemplate ι ω} {registry : Registry ι ω}

theorem isWritten_fillingsOf (harmless : Harmless segments)
    (finished : compiled.bindings = registry.finish)
    (records : Registry.Records named ((bindingsOf segments).map DynamicBinding.provider)
      ((listenersOf segments).map fun pair => pair.2.handler) registry)
    (filling : Filling) (member : filling ∈ fillingsOf named 0 0 segments) :
    filling.IsWritten named (bindingsOf segments) (listenersOf segments) compiled := by
  rw [Filling.IsWritten.eq_def, finished]
  cases filling with
  | reference name =>
    obtain ⟨place, binding, isBinding, same⟩ := reference_mem_fillingsOf named segments name member
    have bound : IsBound named (bindingsOf segments) name binding.provider :=
      Or.inr ⟨place, binding, isBinding, same, rfl⟩
    exact ⟨place, binding, isBinding, same,
      (find?_property_iff_isBound records name binding.provider).mpr bound⟩
  | call name =>
    obtain ⟨place, event, listener, isListener, same⟩ := call_mem_fillingsOf named segments name member
    have called : IsCalled (listenersOf segments) name listener.handler :=
      ⟨place, event, listener, isListener, same, rfl⟩
    exact ⟨place, event, listener, isListener, same,
      (find?_function_iff_isCalled records name listener.handler).mpr called⟩
  | constant expression =>
    have inside := constant_mem_fillingsOf named segments expression member
    exact isValue_of_harmless segments harmless expression inside
  | literal quoted =>
    obtain ⟨content, rfl⟩ := literal_mem_fillingsOf named segments quoted member
    exact ⟨literalItems content, isRow_literalItems content, sources_literalItems content,
      bodies_literalItems content⟩

end Template

/-- The template splits into items in one way. No backtick stands among them, every placeholder is
one that the compiler has written, and the literals, without their escapes, are the contents of the
elements and texts in the order of the walk. -/
structure KeepsLiteral (surroundings : Surroundings ι ω) (document : Document)
    (named : SortedMap Text (Provider ι)) (compiled : CompiledTemplate ι ω)
    (occurrences : List NodeId) (items : List Item) (fillings : List Filling) : Prop where
  row : IsRow false items
  written : sources items = compiled.template
  unique : ∀ other, IsRow false other → sources other = compiled.template → other = items
  quiet : .plain '\x60' ∉ items
  placeholders : bodies items = fillings.map Filling.body
  own : ∀ filling ∈ fillings,
    let elements := occurrences.filter fun id => (document.element? id).isSome
    filling.IsWritten named (surroundings.bindingsAlong elements)
      (surroundings.listenersAlong document elements) compiled
  literals : (fillings.filterMap Filling.quoted?).map unescape =
    occurrences.flatMap (surroundings.contentsAt document)

/-- A template of disabled content is enclosed as it is, and nothing of the content is code. -/
theorem disabled_content_stays_literal (surroundings : Surroundings ι ω) (document : Document)
    (roots : List NodeId) (named : SortedMap Text (Provider ι)) (compiled : CompiledTemplate ι ω)
    (disabled : surroundings.IsDisabled document roots)
    (success :
      ((Compiler.fresh surroundings document).run roots named).1.outcome = .ok compiled) :
    (∀ opening closing, enclose? opening closing compiled.template =
        some (opening ++ compiled.template ++ closing)) ∧
      ∃ occurrences items fillings, document.Visits roots occurrences ∧
        KeepsLiteral surroundings document named compiled occurrences items fillings := by
  have compiles : (compile surroundings document roots named).outcome = .ok compiled := success
  obtain ⟨sound, written, registry, finished, records⟩ := compile_eq_ok compiles
  obtain ⟨occurrences, visits⟩ := visits_of_sound_tour _ _ _ roots sound
  have plain := plain_tour disabled
  have linesEnd := linesEnd_tour document surroundings.metadata.interpolation roots
  have harmless := harmless_skeleton disabled.policies _ plain sound linesEnd document
  have holds := holds_numbered named _ harmless 0 0
  have isWritten := isWritten_fillingsOf harmless finished records
  have literals := unescape_fillingsOf named
    (skeleton surroundings document (document.tour surroundings.metadata.interpolation roots)) 0 0
  rw [bindingsOf_skeleton, listenersOf_skeleton] at isWritten
  rw [literalsOf_skeleton document _ plain, contents_of_sound_tour visits sound] at literals
  have elements : (document.tour surroundings.metadata.interpolation roots).flatMap Stop.entered =
      occurrences.filter fun id => (document.element? id).isSome :=
    entered_of_sound_tour visits _ _ _ sound
  rw [elements] at isWritten
  have enclosed := holds.enclosed
  rw [← written] at holds enclosed
  obtain ⟨items, row, same, quiet, inside⟩ := holds
  have unique (other : List Item) (otherRow : IsRow false other)
      (otherSame : sources other = compiled.template) : other = items :=
    isRow_unique other items otherRow row (otherSame.trans same.symm)
  exact ⟨enclosed, occurrences, items, _, visits,
    { row := row
      written := same
      unique := unique
      quiet := quiet
      placeholders := inside
      own := isWritten
      literals := literals }⟩

def trickyParagraph : Document :=
  (Document.empty.build (.element "p".toList
    [("title".toList, ['$', '\x7b', '\x60', '\\']), ("lang".toList, ['$', '\x7b'])]
    [("note".toList, .string ['\x60', '\\']), ("flag".toList, .bool true)]
    [.text ['$', '\x7b', '\x60', '\\'], .text ['<', '$', '\\']])).2

def disabledParagraph : Surroundings Json Text where
  metadata := SortedMap.empty.insert 0
    { interpolation := .disabled
      attributes := SortedMap.empty.insert "lang".toList (fieldProvider "language".toList)
      properties := SortedMap.empty
      listeners := SortedMap.empty.insert "click".toList ⟨fun _ _ => "clicked".toList, none⟩ }
  policies := [.forTag "p".toList "tap".toList fun _ _ => "tapped".toList]

theorem disabledParagraph_isDisabled : disabledParagraph.IsDisabled trickyParagraph [0] where
  top := by decide +kernel
  below := by
    have checked : ∀ id < 3, ∀ element ∈ trickyParagraph.element? id,
        disabledParagraph.metadata.interpolation id ≠ .enabled ∧
          disabledParagraph.IsPlainAt id element := by
      decide +kernel
    intro root isRoot id element reaches found
    refine checked id ?_ element found
    rw [Document.element?, Document.node?, Option.bind_eq_some_iff] at found
    obtain ⟨node, isNode, _⟩ := found
    exact (List.getElem?_eq_some_iff.mp isNode).1
  policies := by
    intro policy member
    rw [List.mem_singleton.mp member]
    exact ⟨by decide, fun _ => rfl⟩

/-- What looks like code in the paragraph is written as three literals. -/
theorem tricky_paragraph_stays_literal :
    disabledParagraph.IsDisabled trickyParagraph [0] ∧
      ∃ compiled : CompiledTemplate Json Text,
        ((Compiler.fresh disabledParagraph trickyParagraph).run [0] SortedMap.empty).1.outcome =
            .ok compiled ∧
          (∀ opening closing, enclose? opening closing compiled.template =
            some (opening ++ compiled.template ++ closing)) ∧
          ∃ occurrences items fillings, trickyParagraph.Visits [0] occurrences ∧
            KeepsLiteral disabledParagraph trickyParagraph SortedMap.empty compiled occurrences
              items fillings := by
  have succeeds : ((Compiler.fresh disabledParagraph trickyParagraph).run [0]
      SortedMap.empty).1.outcome.toBool = true := by
    decide +kernel
  obtain ⟨compiled, outcome⟩ := exists_ok succeeds
  exact ⟨disabledParagraph_isDisabled, compiled, outcome,
    disabled_content_stays_literal _ _ _ _ compiled disabledParagraph_isDisabled outcome⟩

end TreeTemplate
