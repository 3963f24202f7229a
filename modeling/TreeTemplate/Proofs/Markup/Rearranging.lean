import TreeTemplate.Proofs.Markup.Interpretation
import TreeTemplate.Proofs.Template.Registration

/-!
# Rearranged items

Items of a tag are moved, but literals of one kind and items of one form and name keep their order.
Every item declares what it has declared, so the tag comes to the same literals, and to the same
directives for each aspect of its element. Trees whose tags are rearranged are interpreted as forests
that have the same shape, and the same directives under the same identities.
-/
set_option autoImplicit false

namespace TreeTemplate.Markup

/-- The second list has the items of the first, in an order that is the same for the literal
attributes, for the literal properties, and for the items of each form and name. -/
structure Rearranged (items others : List Item) : Prop where
  moved : items.Perm others
  attributes : items.filter (fun item => item.sigil = .bare ∧ item.name ≠ interpolationItem) =
    others.filter fun item => item.sigil = .bare ∧ item.name ≠ interpolationItem
  properties : items.filter (fun item => item.sigil = .setProperty) =
    others.filter fun item => item.sigil = .setProperty
  alike : ∀ item ∈ items,
    items.filter (fun other => other.sigil = item.sigil ∧ other.name = item.name) =
      others.filter fun other => other.sigil = item.sigil ∧ other.name = item.name

def itemForm : Aspect → Sigil × Text
  | .attributeOf name => (.bindAttribute, name)
  | .propertyOf name => (.bindProperty, name)
  | .listenerFor event => (.listen, event)
  | .interpolation => (.bare, interpolationItem)

def Directive.aspect : Directive → Aspect
  | .bindAttribute name _ => .attributeOf name
  | .bindProperty name _ => .propertyOf name
  | .listen event _ => .listenerFor event
  | .interpolate _ => .interpolation

def Declaration.IsFrom (item : Item) : Declaration → Prop
  | .setAttribute _ _ => item.sigil = .bare ∧ item.name ≠ interpolationItem
  | .setProperty _ _ => item.sigil = .setProperty
  | .directive content => (item.sigil, item.name) = itemForm content.aspect

theorem Item.isFrom {item : Item} {declaration : Declaration}
    (declared : item.declare = .ok declaration) : declaration.IsFrom item := by
  obtain ⟨sigil, name, value⟩ := item
  cases sigil with
  | bindAttribute =>
    obtain ⟨field, -, same⟩ := bind_eq_ok declared
    obtain rfl := Except.ok.inj same
    rfl
  | bindProperty =>
    obtain ⟨field, -, same⟩ := bind_eq_ok declared
    obtain rfl := Except.ok.inj same
    rfl
  | listen =>
    obtain rfl := Except.ok.inj declared
    rfl
  | setProperty =>
    obtain ⟨_, -, typed⟩ := bind_eq_ok declared
    obtain ⟨value, -, same⟩ := bind_eq_ok typed
    obtain rfl := Except.ok.inj same
    rfl
  | bare =>
    rw [Item.declare] at declared
    dsimp only at declared
    split at declared
    · rename_i isMode
      obtain ⟨_, -, read⟩ := bind_eq_ok declared
      obtain ⟨enabled, -, same⟩ := bind_eq_ok read
      obtain rfl := Except.ok.inj same
      exact congrArg (Prod.mk Sigil.bare) isMode
    · rename_i literal
      obtain rfl := Except.ok.inj declared
      exact ⟨rfl, literal⟩

def Item.declaration? (item : Item) : Option Declaration :=
  item.declare.toOption

theorem declareAll_eq_ok {items : List Item} {declarations : List Declaration}
    (declared : Item.declareAll items = .ok declarations) :
    (∀ item ∈ items, ∃ declaration, item.declare = .ok declaration) ∧
      declarations = items.filterMap Item.declaration? := by
  induction items generalizing declarations with
  | nil =>
    obtain rfl := Except.ok.inj declared
    exact ⟨List.forall_mem_nil _, rfl⟩
  | cons first rest ih =>
    rw [Item.declareAll] at declared
    obtain ⟨declaration, head, declaredLater⟩ := bind_eq_ok declared
    obtain ⟨later, tail, same⟩ := bind_eq_ok declaredLater
    obtain rfl := Except.ok.inj same
    obtain ⟨declares, rfl⟩ := ih tail
    refine ⟨List.forall_mem_cons.mpr ⟨⟨declaration, head⟩, declares⟩, ?_⟩
    rw [List.filterMap_cons, Item.declaration?, head]
    rfl

theorem declareAll_of_forall {items : List Item}
    (declares : ∀ item ∈ items, ∃ declaration, item.declare = .ok declaration) :
    Item.declareAll items = .ok (items.filterMap Item.declaration?) := by
  induction items with
  | nil => rfl
  | cons first rest ih =>
    obtain ⟨⟨declaration, head⟩, later⟩ := List.forall_mem_cons.mp declares
    rw [Item.declareAll, head, ih later, List.filterMap_cons, Item.declaration?, head]
    rfl

/-- What a selection finds depends on the values that it can find something in. -/
theorem filterMap_congr_of_filter {α β : Type} {isCase : α → Bool} {select : α → Option β}
    (within : ∀ value result, select value = some result → isCase value = true)
    {left right : List α} (same : left.filter isCase = right.filter isCase) :
    left.filterMap select = right.filterMap select := by
  have cases (list : List α) : list.filterMap select = (list.filter isCase).filterMap select := by
    rw [List.filterMap_filter]
    congr 1
    funext value
    split
    · rfl
    · rename_i other
      rw [Option.eq_none_iff_forall_ne_some]
      intro result found
      exact other (within value result found)
  rw [cases left, same, ← cases right]

/-- The declarations come to the same literals, and to the same directives for each aspect. -/
structure DeclareAlike (left right : List Declaration) : Prop where
  attributes : left.filterMap Declaration.attribute? = right.filterMap Declaration.attribute?
  properties : left.filterMap Declaration.property? = right.filterMap Declaration.property?
  directives : ∀ aspect,
    (left.filterMap Declaration.directive?).filter (fun directive => directive.aspect = aspect) =
      (right.filterMap Declaration.directive?).filter fun directive => directive.aspect = aspect

section Items
variable {items others : List Item} (rearranged : Rearranged items others)
include rearranged

theorem Rearranged.sameForm (form : Sigil × Text) :
    items.filter (fun item => (item.sigil, item.name) = form) =
      others.filter fun item => (item.sigil, item.name) = form := by
  have parts (item : Item) : decide ((item.sigil, item.name) = form) =
      decide (item.sigil = form.1 ∧ item.name = form.2) := by
    rw [decide_eq_decide, Prod.ext_iff]
  simp only [parts]
  by_cases present : ∃ item ∈ items, (item.sigil, item.name) = form
  · obtain ⟨item, member, rfl⟩ := present
    exact rearranged.alike item member
  · have absent : items.filter (fun item => item.sigil = form.1 ∧ item.name = form.2) = [] := by
      rw [List.filter_eq_nil_iff]
      intro item member isForm
      exact present ⟨item, member, Prod.ext_iff.mpr (of_decide_eq_true isForm)⟩
    have moved := rearranged.moved.filter fun item => item.sigil = form.1 ∧ item.name = form.2
    rw [absent] at moved ⊢
    exact moved.nil_eq

theorem Rearranged.declareAll {declarations : List Declaration}
    (declared : Item.declareAll items = .ok declarations) :
    ∃ moved, Item.declareAll others = .ok moved ∧ DeclareAlike declarations moved := by
  obtain ⟨declares, rfl⟩ := declareAll_eq_ok declared
  have declaresOthers : ∀ item ∈ others, ∃ declaration, item.declare = .ok declaration :=
    fun item member => declares item (rearranged.moved.mem_iff.mpr member)
  have isFrom {item : Item} {declaration : Declaration}
      (found : item.declaration? = some declaration) : declaration.IsFrom item := by
    rw [Item.declaration?] at found
    cases declared : item.declare with
    | error reason =>
      rw [declared] at found
      cases found
    | ok own =>
      rw [declared] at found
      obtain rfl := Option.some.inj found
      exact Item.isFrom declared
  refine ⟨_, declareAll_of_forall declaresOthers, ?_, ?_, ?_⟩
  · rw [List.filterMap_filterMap, List.filterMap_filterMap]
    refine filterMap_congr_of_filter ?_ rearranged.attributes
    intro item pair selected
    obtain ⟨declaration, found, isLiteral⟩ := Option.bind_eq_some_iff.mp selected
    cases declaration with
    | setAttribute name value => exact decide_eq_true (isFrom found)
    | setProperty name value => cases isLiteral
    | directive content => cases isLiteral
  · rw [List.filterMap_filterMap, List.filterMap_filterMap]
    refine filterMap_congr_of_filter ?_ rearranged.properties
    intro item pair selected
    obtain ⟨declaration, found, isLiteral⟩ := Option.bind_eq_some_iff.mp selected
    cases declaration with
    | setProperty name value => exact decide_eq_true (isFrom found)
    | setAttribute name value => cases isLiteral
    | directive content => cases isLiteral
  · intro aspect
    rw [List.filterMap_filterMap, List.filterMap_filterMap, List.filter_filterMap,
      List.filter_filterMap]
    refine filterMap_congr_of_filter ?_ (rearranged.sameForm (itemForm aspect))
    intro item directive selected
    obtain ⟨selected, isAspect⟩ := Option.filter_eq_some_iff.mp selected
    obtain ⟨declaration, found, isDirective⟩ := Option.bind_eq_some_iff.mp selected
    cases declaration with
    | directive content =>
      obtain rfl := Option.some.inj isDirective
      rw [← of_decide_eq_true isAspect]
      exact decide_eq_true (isFrom found)
    | setAttribute name value => cases isDirective
    | setProperty name value => cases isDirective

end Items

/-! ## Trees -/

inductive Reorders : List Written → List Written → Prop where
  | nothing : Reorders [] []
  | text (raw : Text) {trees others : List Written} (later : Reorders trees others) :
      Reorders (.text raw :: trees) (.text raw :: others)
  | void (tag : Text) {items moved : List Item} {trees others : List Written}
      (rearranged : Rearranged items moved) (later : Reorders trees others) :
      Reorders (.void tag items :: trees) (.void tag moved :: others)
  | paired (tag closing : Text) {items moved : List Item}
      {children inner trees others : List Written} (rearranged : Rearranged items moved)
      (inside : Reorders children inner) (later : Reorders trees others) :
      Reorders (.paired tag items children closing :: trees)
        (.paired tag moved inner closing :: others)

inductive Alike : List Declared → List Declared → Prop where
  | nothing : Alike [] []
  | text (content : Text) {forest other : List Declared} (later : Alike forest other) :
      Alike (.text content :: forest) (.text content :: other)
  | element (tag : Text) {declarations moved : List Declaration}
      {children inner forest other : List Declared} (alike : DeclareAlike declarations moved)
      (inside : Alike children inner) (later : Alike forest other) :
      Alike (.element tag declarations children :: forest) (.element tag moved inner :: other)

theorem interpretAll_cons {tree : Written} {trees : List Written} {piece : Option Declared}
    {forest : List Declared} (first : tree.interpret = .ok piece)
    (later : Written.interpretAll trees = .ok forest) :
    Written.interpretAll (tree :: trees) = .ok (piece.toList ++ forest) := by
  rw [Written.interpretAll, first, later]
  rfl

theorem Reorders.interpretAll {trees others : List Written} (reorders : Reorders trees others)
    {forest : List Declared} (interpreted : Written.interpretAll trees = .ok forest) :
    ∃ other, Written.interpretAll others = .ok other ∧ Alike forest other := by
  induction reorders generalizing forest with
  | nothing =>
    obtain rfl := Except.ok.inj interpreted
    exact ⟨[], rfl, .nothing⟩
  | text raw later ih =>
    obtain ⟨piece, rest, first, interpretedLater, rfl⟩ := interpretAll_cons_eq_ok interpreted
    obtain ⟨other, interpretedOther, alike⟩ := ih interpretedLater
    refine ⟨_, interpretAll_cons first interpretedOther, ?_⟩
    rw [Written.interpret] at first
    obtain rfl := Except.ok.inj first
    split
    · exact alike
    · exact .text _ alike
  | @void tag items movedItems trees others rearranged later ih =>
    obtain ⟨piece, rest, first, interpretedLater, rfl⟩ := interpretAll_cons_eq_ok interpreted
    obtain ⟨other, interpretedOther, alike⟩ := ih interpretedLater
    rw [Written.interpret] at first
    obtain ⟨declarations, declared, same⟩ := bind_eq_ok first
    obtain rfl := Except.ok.inj same
    obtain ⟨moved, declaredMoved, declareAlike⟩ := rearranged.declareAll declared
    have firstOther : (Written.void tag movedItems).interpret = .ok (some (.element tag moved [])) := by
      rw [Written.interpret, declaredMoved]
      rfl
    exact ⟨_, interpretAll_cons firstOther interpretedOther, .element tag declareAlike .nothing alike⟩
  | @paired tag closing items movedItems children innerTrees trees others rearranged inside later
      ihInside ihLater =>
    obtain ⟨piece, rest, first, interpretedLater, rfl⟩ := interpretAll_cons_eq_ok interpreted
    obtain ⟨other, interpretedOther, alike⟩ := ihLater interpretedLater
    rw [Written.interpret] at first
    obtain ⟨declarations, declared, interpretedInner⟩ := bind_eq_ok first
    obtain ⟨children, interpretedInside, matching⟩ := bind_eq_ok interpretedInner
    obtain ⟨moved, declaredMoved, declareAlike⟩ := rearranged.declareAll declared
    obtain ⟨inner, interpretedOtherInside, alikeInside⟩ := ihInside interpretedInside
    split at matching
    · rename_i sameTag
      obtain rfl := Except.ok.inj matching
      have firstOther : (Written.paired tag movedItems innerTrees closing).interpret =
          .ok (some (.element tag moved inner)) := by
        rw [Written.interpret, declaredMoved, interpretedOtherInside]
        exact if_pos sameTag
      exact ⟨_, interpretAll_cons firstOther interpretedOther,
        .element tag declareAlike alikeInside alike⟩
    · cases matching

theorem DeclareAlike.directivesAt {left right : List Declaration} (alike : DeclareAlike left right)
    (id : NodeId) (key : NodeId × Aspect) :
    ((left.filterMap Declaration.directive?).map fun directive => (id, directive)).filter
        (fun pair => (pair.1, pair.2.aspect) = key) =
      ((right.filterMap Declaration.directive?).map fun directive => (id, directive)).filter
        fun pair => (pair.1, pair.2.aspect) = key := by
  obtain ⟨place, aspect⟩ := key
  rw [List.filter_map, List.filter_map]
  by_cases here : id = place
  · subst here
    have own : ((fun pair : NodeId × Directive => decide ((pair.1, pair.2.aspect) = (id, aspect))) ∘
        fun directive => (id, directive)) = fun directive => decide (directive.aspect = aspect) := by
      funext directive
      simp
    rw [own, alike.directives aspect]
  · have nothing : ((fun pair : NodeId × Directive =>
        decide ((pair.1, pair.2.aspect) = (place, aspect))) ∘ fun directive => (id, directive)) =
          fun _ => false := by
      funext directive
      simp [here]
    rw [nothing, List.filter_false, List.filter_false]

section Forests
variable {forest other : List Declared} (alike : Alike forest other)
include alike

theorem Alike.isEmpty : forest.isEmpty = other.isEmpty := by
  cases alike <;> rfl

theorem Alike.blueprints : Declared.blueprints forest = Declared.blueprints other := by
  induction alike with
  | nothing => rfl
  | text content later ih =>
    rw [Declared.blueprints, Declared.blueprints, ih]
  | element tag declareAlike inside later ihInside ihLater =>
    rw [Declared.blueprints, Declared.blueprints, Declared.blueprint, Declared.blueprint,
      declareAlike.attributes, declareAlike.properties, ihInside, ihLater]

theorem Alike.sizeAll : Declared.sizeAll forest = Declared.sizeAll other := by
  induction alike with
  | nothing => rfl
  | text content later ih =>
    rw [Declared.sizeAll, Declared.sizeAll, ih]
  | element tag declareAlike inside later ihInside ihLater =>
    rw [Declared.sizeAll, Declared.sizeAll, Declared.size, Declared.size, ihInside, ihLater]

/-- The directives for each aspect of each element come in the same order. -/
theorem Alike.directives (id : NodeId) (key : NodeId × Aspect) :
    (Declared.directivesOfAll id forest).filter (fun pair => (pair.1, pair.2.aspect) = key) =
      (Declared.directivesOfAll id other).filter fun pair => (pair.1, pair.2.aspect) = key := by
  induction alike generalizing id with
  | nothing => rfl
  | text content later ih =>
    rw [Declared.directivesOfAll, Declared.directivesOfAll, Declared.directives]
    exact ih _
  | element tag declareAlike inside later ihInside ihLater =>
    have sizes := inside.sizeAll
    rw [Declared.directivesOfAll, Declared.directivesOfAll, Declared.directives,
      Declared.directives, Declared.size, Declared.size, sizes]
    simp only [List.filter_append, ihInside, ihLater, declareAlike.directivesAt id key]

end Forests

end TreeTemplate.Markup
