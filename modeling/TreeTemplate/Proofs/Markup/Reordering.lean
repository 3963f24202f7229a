import TreeTemplate.Proofs.Command.Lines
import TreeTemplate.Proofs.Markup.Rearranging

/-!
# The order of items in a tag

Literals go into the tree, and directives are applied to it one after the other, each to one aspect of
one element. Directives for different aspects commute, so a source whose items are reordered becomes
the same renderer, and what is compiled is the same. A directive that binds a name drops the literal
of the name, wherever that stands in the tag.
-/
set_option autoImplicit false

namespace TreeTemplate

section Folding
variable {σ α κ : Type} {step : σ → α → σ} {key : α → κ}
  (comm : ∀ state first second, key first ≠ key second →
    step (step state first) second = step (step state second) first)
include comm

theorem foldl_step_comm (state : σ) (first : α) (others : List α)
    (apart : ∀ other ∈ others, key first ≠ key other) :
    others.foldl step (step state first) = step (others.foldl step state) first := by
  induction others generalizing state with
  | nil => rfl
  | cons other rest ih =>
    rw [List.forall_mem_cons] at apart
    rw [List.foldl_cons, comm state first other apart.1, ih _ apart.2]
    rfl

/-- Steps that commute unless they have the same key come to the same where those of each key are
taken in the same order. -/
theorem foldl_eq_of_filter_eq [DecidableEq κ] (left right : List α)
    (same : ∀ own, left.filter (fun value => key value = own) =
      right.filter fun value => key value = own) (state : σ) :
    left.foldl step state = right.foldl step state := by
  induction left generalizing right state with
  | nil =>
    cases right with
    | nil => rfl
    | cons first rest => simpa using same (key first)
  | cons first rest ih =>
    have own := same (key first)
    rw [List.filter_cons_of_pos (by simp)] at own
    -- The first step of its key on the right is the one that comes first on the left.
    obtain ⟨before, behind, rfl, apart, -, later⟩ := List.filter_eq_cons_iff.mp own.symm
    have others : ∀ other ∈ before, key first ≠ key other := by
      intro other member isKey
      exact apart other member (decide_eq_true isKey.symm)
    have moved : ∀ own, rest.filter (fun value => key value = own) =
        (before ++ behind).filter fun value => key value = own := by
      intro own
      rw [List.filter_append]
      by_cases isOwn : key first = own
      · subst isOwn
        rw [List.filter_eq_nil_iff.mpr apart, List.nil_append, later]
      · have whole := same own
        rwa [List.filter_cons_of_neg (by simpa using isOwn), List.filter_append,
          List.filter_cons_of_neg (by simpa using isOwn)] at whole
    rw [List.foldl_cons, ih _ moved, List.foldl_append, List.foldl_append, List.foldl_cons,
      foldl_step_comm comm state first before others]

end Folding

namespace Renderer
variable {ι ω : Type}

def next? (current : Option (Renderer ι ω)) (registration : Registration ι ω) :
    Option (Renderer ι ω) :=
  current.bind fun renderer =>
    if (renderer.register registration).1.toBool then some (renderer.register registration).2
    else none

theorem next?_comm (current : Option (Renderer ι ω)) (first second : Registration ι ω)
    (apart : first.target ≠ second.target) :
    next? (next? current first) second = next? (next? current second) first := by
  cases current with
  | none => rfl
  | some renderer =>
    obtain ⟨secondAlike, complete⟩ := renderer.register_comm apart
    obtain ⟨firstAlike, -⟩ := renderer.register_comm apart.symm
    cases first? : (renderer.register first).1.toBool with
    | false =>
      cases second? : (renderer.register second).1.toBool with
      | false => simp [next?, first?, second?]
      | true => simp [next?, first?, second?, firstAlike]
    | true =>
      cases second? : (renderer.register second).1.toBool with
      | false => simp [next?, first?, second?, secondAlike]
      | true => simp [next?, first?, second?, firstAlike, secondAlike, complete]

/-- Where the registrations for each target come in the same order, they come to the same renderer,
or fail in both orders. -/
theorem foldl_next?_congr {left right : List (Registration ι ω)}
    (same : ∀ target, left.filter (fun registration => registration.target = target) =
      right.filter fun registration => registration.target = target)
    (current : Option (Renderer ι ω)) : left.foldl next? current = right.foldl next? current :=
  foldl_eq_of_filter_eq next?_comm left right same current

end Renderer

namespace Markup

section Applying
variable {ω : Type} (announce : LogRecord → ω)

def Directive.attachment (id : NodeId) : Directive → Attachment Json ω
  | .bindAttribute name field => .bindAttribute name (fieldProvider field)
  | .bindProperty name field => .bindProperty name (fieldProvider field)
  | .listen event arguments => .listen event (announcer announce id event arguments)
  | .interpolate enabled => .interpolate enabled

theorem Directive.edit_attachment (id : NodeId) (directive : Directive) :
    (directive.attachment announce id).edit = directive.edit announce id := by
  cases directive with
  | listen event arguments => exact (edit_listen announce id event arguments).symm
  | _ => rfl

theorem Directive.aspect_attachment (id : NodeId) (directive : Directive) :
    (directive.attachment announce id).aspect = directive.aspect := by
  cases directive <;> rfl

def registrationOf (pair : NodeId × Directive) : Registration Json ω :=
  .attached pair.1 (pair.2.attachment announce pair.1)

/-- Directives are applied as registrations that are made until one fails. -/
theorem applyDirectives_eq_ok_iff (renderer final : Renderer Json ω)
    (directives : List (NodeId × Directive)) :
    applyDirectives announce renderer directives = .ok final ↔
      (directives.map (registrationOf announce)).foldl Renderer.next? (some renderer) =
        some final := by
  have stuck (registrations : List (Registration Json ω)) :
      registrations.foldl Renderer.next? none = none := by
    induction registrations with
    | nil => rfl
    | cons first rest ih => exact ih
  induction directives generalizing renderer with
  | nil => simp [applyDirectives]
  | cons pair rest ih =>
    obtain ⟨id, directive⟩ := pair
    rw [applyDirectives, List.map_cons, List.foldl_cons, Renderer.next?, Option.bind_some,
      registrationOf, Renderer.register, Directive.edit_attachment]
    rcases renderer.change id (directive.edit announce id) with ⟨reason | done, changed⟩
    · simp [Except.toBool, stuck]
    · exact ih changed

theorem filter_registrations {directives others : List (NodeId × Directive)}
    (same : ∀ key : NodeId × Aspect,
      directives.filter (fun pair => (pair.1, pair.2.aspect) = key) =
        others.filter fun pair => (pair.1, pair.2.aspect) = key) (target : Target) :
    (directives.map (registrationOf announce)).filter
        (fun registration => registration.target = target) =
      (others.map (registrationOf announce)).filter
        fun registration => registration.target = target := by
  rw [List.filter_map, List.filter_map]
  cases target with
  | named name =>
    have nothing : ((fun registration : Registration Json ω =>
        decide (registration.target = .named name)) ∘ registrationOf announce) = fun _ => false := by
      funext pair
      simp [registrationOf, Registration.target]
    rw [nothing, List.filter_false, List.filter_false]
  | node id aspect =>
    have own : ((fun registration : Registration Json ω =>
        decide (registration.target = .node id aspect)) ∘ registrationOf announce) =
          fun pair => decide ((pair.1, pair.2.aspect) = (id, aspect)) := by
      funext pair
      simp [registrationOf, Registration.target, Directive.aspect_attachment]
    rw [own, same]

/-- Forests that are alike become the same renderer, if they become one. -/
theorem Alike.renderer {forest other : List Declared} (alike : Alike forest other)
    {renderer : Renderer Json ω} (prepared : (ofDeclared forest).renderer announce = .ok renderer) :
    (ofDeclared other).renderer announce = .ok renderer := by
  have document : (ofDeclared other).document = (ofDeclared forest).document := by
    rw [ofDeclared, ofDeclared, alike.blueprints]
  have roots : (ofDeclared other).roots = (ofDeclared forest).roots := by
    rw [ofDeclared, ofDeclared, alike.blueprints]
  rw [Markup.renderer] at prepared ⊢
  rw [document, roots]
  cases blank : Renderer.ofDocument (ofDeclared forest).document (ofDeclared forest).roots with
  | error reason =>
    rw [blank] at prepared
    cases prepared
  | ok created =>
    rw [blank] at prepared
    dsimp only at prepared ⊢
    rw [applyDirectives_eq_ok_iff] at prepared ⊢
    rw [← prepared]
    exact (Renderer.foldl_next?_congr (filter_registrations announce (alike.directives 0)) _).symm

end Applying

/-! ## Sources -/

/-- The second source spells the trees of the first one with the items of their tags in another
order. -/
def IsReordering (source other : Text) : Prop :=
  ∃ trees others, Spells source trees ∧ Spells other others ∧ Reorders trees others

theorem IsReordering.parse {source other : Text} (reordering : IsReordering source other)
    {markup : Markup} (parsed : Markup.parse source = .ok markup) :
    ∃ forest moved, Alike forest moved ∧ markup = ofDeclared forest ∧
      Markup.parse other = .ok (ofDeclared moved) := by
  obtain ⟨trees, others, spells, spellsOther, reorders⟩ := reordering
  rw [Markup.parse, read_spelling spells] at parsed
  dsimp only at parsed
  split at parsed
  · cases parsed
  · cases parsed
  · rename_i forest filled interpreted
    obtain ⟨moved, interpretedOther, alike⟩ := reorders.interpretAll interpreted
    refine ⟨forest, moved, alike, (Except.ok.inj parsed).symm, ?_⟩
    have filledOther : moved ≠ [] := by
      intro isNil
      have same := alike.isEmpty
      rw [isNil] at same
      exact filled (List.isEmpty_iff.mp same)
    exact parse_of_declares ⟨others, spellsOther, interpretedOther⟩ filledOther

theorem draft_applyDirectives {ω : Type} {announce : LogRecord → ω} {renderer final : Renderer Json ω}
    {directives : List (NodeId × Directive)}
    (success : applyDirectives announce renderer directives = .ok final) :
    final.draft = renderer.draft.editEach
      (directives.map fun pair => (pair.1, pair.2.edit announce pair.1)) := by
  induction directives generalizing renderer with
  | nil =>
    obtain rfl := Except.ok.inj success
    rfl
  | cons pair rest ih =>
    obtain ⟨id, directive⟩ := pair
    rw [applyDirectives, Renderer.change] at success
    cases refused : renderer.refusal? id with
    | some reason =>
      rw [refused] at success
      cases success
    | none =>
      rw [refused] at success
      dsimp only at success
      split at success
      · cases success
      · rename_i done changed edited
        obtain ⟨-, rfl⟩ := Prod.mk.inj edited
        exact ih success

/-- The last directive that binds a name of an element decides what stands under the name. -/
theorem last_binding_decides {β ω : Type} {announce : LogRecord → ω}
    {select : NodeEdit Json ω → Option (Text × Setting β Json)}
    {holdingAt : Draft Json ω → NodeId → Holding β Json} (follows : Follows select holdingAt)
    (binds : Text → Text → Directive)
    (selected : ∀ id name field,
      select ((binds name field).edit announce id) = some (name, .bound (fieldProvider field)))
    (only : ∀ id directive name setting,
      select (Directive.edit announce id directive) = some (name, setting) →
        ∃ field, directive = binds name field)
    {source : Text} {markup : Markup} (parsed : Markup.parse source = .ok markup)
    {renderer : Renderer Json ω} (prepared : markup.renderer announce = .ok renderer)
    {before behind : List (NodeId × Directive)} {id : NodeId} {name field : Text}
    (shape : markup.directives = before ++ (id, binds name field) :: behind)
    (last : ∀ later, (id, binds name later) ∉ behind) :
    (holdingAt renderer.draft id).under name = (none, some (fieldProvider field)) := by
  obtain ⟨forest, carries, filled⟩ := carries_of_parse parsed
  rw [Markup.renderer] at prepared
  split at prepared
  · cases prepared
  · rename_i blank created
    have applied : Applied announce markup [] blank := applied_ofDocument created
    have elements : ∀ call ∈ markup.directives.map
        (fun pair => (pair.1, pair.2.edit announce pair.1)),
          (blank.draft.document.element? call.1).isSome = true := by
      intro call member
      obtain ⟨pair, isDirective, rfl⟩ := List.mem_map.mp member
      rw [show blank.draft.document.element? = blank.document.element? from rfl,
        ← applied.agrees.isElement]
      exact (carries.reached pair isDirective).2
    have decides := follows.lastCallDecides blank.draft _ elements id name
    rw [← draft_applyDirectives prepared] at decides
    refine decides.1 (.bound (fieldProvider field)) ?_
    refine ⟨settingsOf select (before.map fun pair => (pair.1, pair.2.edit announce pair.1)),
      settingsOf select (behind.map fun pair => (pair.1, pair.2.edit announce pair.1)), ?_, ?_⟩
    · rw [shape, settingsOf, List.map_append, List.filterMap_append, List.map_cons,
        List.filterMap_cons_some (by rw [selected]; rfl)]
      rfl
    · intro repeated
      obtain ⟨⟨key, setting⟩, isSetting, rfl⟩ := List.mem_map.mp repeated
      obtain ⟨call, isCall, found⟩ := List.mem_filterMap.mp isSetting
      obtain ⟨⟨node, directive⟩, isBehind, rfl⟩ := List.mem_map.mp isCall
      obtain ⟨⟨own, put⟩, isSelected, same⟩ := Option.map_eq_some_iff.mp found
      obtain ⟨sameKey, rfl⟩ := Prod.mk.inj same
      obtain ⟨rfl, rfl⟩ := Prod.mk.inj sameKey
      obtain ⟨later, rfl⟩ := only node directive own put isSelected
      exact last later isBehind

theorem last_attribute_decides {ω : Type} {announce : LogRecord → ω} {source : Text}
    {markup : Markup} (parsed : Markup.parse source = .ok markup) {renderer : Renderer Json ω}
    (prepared : markup.renderer announce = .ok renderer) {before behind : List (NodeId × Directive)}
    {node : NodeId} {name field : Text}
    (shape : markup.directives = before ++ (node, .bindAttribute name field) :: behind)
    (last : ∀ later, (node, .bindAttribute name later) ∉ behind) :
    (renderer.draft.attributesAt node).under name = (none, some (fieldProvider field)) := by
  refine last_binding_decides attributesAt_follows .bindAttribute (fun _ _ _ => rfl) ?_ parsed
    prepared shape last
  intro id directive name setting selected
  cases directive with
  | bindAttribute own field =>
    obtain ⟨rfl, -⟩ := Prod.mk.inj (Option.some.inj selected)
    exact ⟨field, rfl⟩
  | bindProperty own field => cases selected
  | listen event arguments => cases arguments <;> cases selected
  | interpolate enabled => cases selected

theorem last_property_decides {ω : Type} {announce : LogRecord → ω} {source : Text}
    {markup : Markup} (parsed : Markup.parse source = .ok markup) {renderer : Renderer Json ω}
    (prepared : markup.renderer announce = .ok renderer) {before behind : List (NodeId × Directive)}
    {node : NodeId} {name field : Text}
    (shape : markup.directives = before ++ (node, .bindProperty name field) :: behind)
    (last : ∀ later, (node, .bindProperty name later) ∉ behind) :
    (renderer.draft.propertiesAt node).under name = (none, some (fieldProvider field)) := by
  refine last_binding_decides propertiesAt_follows .bindProperty (fun _ _ _ => rfl) ?_ parsed
    prepared shape last
  intro id directive name setting selected
  cases directive with
  | bindProperty own field =>
    obtain ⟨rfl, -⟩ := Prod.mk.inj (Option.some.inj selected)
    exact ⟨field, rfl⟩
  | bindAttribute own field => cases selected
  | listen event arguments => cases arguments <;> cases selected
  | interpolate enabled => cases selected

/-! ## What a binding writes -/

/-- The output begins with a template in which the start tag of the node's element stands among the
other segments, and holds the binding. -/
structure WritesBinding (renderer : Renderer Json LogRecord) (request : Command.Request)
    (output : Text) (id : NodeId) (element : Element) (binding : DynamicBinding Json) : Prop where
  isElement : renderer.document.node? id = some (.element element)
  written : ∃ segments current depth interpolate,
    let policies := (Command.equipped request renderer).policies
    let tag := startSegments ⟨renderer.metadata, policies⟩ current depth id element interpolate
    numbered (Command.listed request.properties) 0 0 segments ++ ['\n'] <+: output ∧
      tag <:+: segments ∧ .binding binding ∈ tag

section Writing
variable {source : Text} {markup : Markup} {renderer : Renderer Json LogRecord}
  (parsed : Markup.parse source = .ok markup) (prepared : markup.renderer id = .ok renderer)
include parsed prepared

/-- Whatever is bound for an element that has a directive is written in its start tag. -/
theorem exists_writesBinding {read : Command.FileReader} {request : Command.Request} {output : Text}
    (success : Command.compileSource read source request = .ok output) {node : NodeId}
    {directive : Directive} (isDirective : (node, directive) ∈ markup.directives) :
    ∃ element, ∀ binding ∈ (renderer.metadata.ofNode node).dynamicBindings,
      WritesBinding renderer request output node element binding := by
  obtain ⟨compiled, compiles, begins⟩ :=
    Command.compilation_of_compileSource parsed prepared success
  obtain ⟨forest, carries, filled⟩ := carries_of_parse parsed
  rcases carries.renderer_cases id filled with ⟨base, isBase, applied, -⟩ | ⟨event, failed, -⟩
  · obtain rfl := Except.ok.inj (prepared.symm.trans isBase)
    obtain ⟨⟨root, isRoot, reaches⟩, isElement⟩ := carries.reached _ isDirective
    rw [applied.agrees.isElement] at isElement
    have children : markup.document.children = renderer.document.children :=
      funext applied.agrees.children
    rw [Document.Reaches, children] at reaches
    rw [← applied.roots] at isRoot
    obtain ⟨element, found⟩ := Option.isSome_iff_exists.mp isElement
    have isNode := Document.element?_eq_some_iff.mp found
    obtain ⟨current, depth, interpolate, stands⟩ :=
      startSegments_infix compiles isRoot reaches isNode
    obtain ⟨-, template, -⟩ := compile_eq_ok compiles
    rw [template] at begins
    refine ⟨element, fun binding isBound =>
      ⟨isNode, _, current, depth, interpolate, begins, stands, ?_⟩⟩
    rw [← mem_bindingsOf_iff, bindingsOf_startSegments]
    exact isBound
  · cases prepared.symm.trans failed

end Writing

/-- Whatever is asked for besides, a source that becomes a renderer compiles to the same output, or
fails alike, when the items of its tags are reordered. Wherever literals stand, under a bound name
there is the binding of its last field, and no literal; and so it is in the start tag that is
written. -/
theorem reordered_items_compile_alike {source other : Text} (reordering : IsReordering source other)
    {markup : Markup} (parsed : Markup.parse source = .ok markup)
    {renderer : Renderer Json LogRecord} (prepared : markup.renderer id = .ok renderer) :
    (∀ (read : Command.FileReader) (request : Command.Request),
      Command.compileSource read other request = Command.compileSource read source request) ∧
    (∀ before behind node name field,
      markup.directives = before ++ (node, .bindAttribute name field) :: behind →
        (∀ later, (node, .bindAttribute name later) ∉ behind) →
          (renderer.draft.attributesAt node).under name = (none, some (fieldProvider field)) ∧
            ∀ read request output, Command.compileSource read source request = .ok output →
              ∃ element, WritesBinding renderer request output node element
                  ⟨[], name, fieldProvider field⟩ ∧
                name ∉ Entries.keys
                  (element.withoutBound (renderer.metadata.ofNode node)).attributes) ∧
    ∀ before behind node name field,
      markup.directives = before ++ (node, .bindProperty name field) :: behind →
        (∀ later, (node, .bindProperty name later) ∉ behind) →
          (renderer.draft.propertiesAt node).under name = (none, some (fieldProvider field)) ∧
            ∀ read request output, Command.compileSource read source request = .ok output →
              ∃ element, WritesBinding renderer request output node element
                  ⟨['.'], name, fieldProvider field⟩ ∧
                name ∉ Entries.keys
                  (element.withoutBound (renderer.metadata.ofNode node)).properties := by
  refine ⟨?_, ?_, ?_⟩
  · obtain ⟨forest, moved, alike, rfl, parsedOther⟩ := reordering.parse parsed
    have preparedOther := alike.renderer id prepared
    intro read request
    have prepares : Command.prepare other request = Command.prepare source request := by
      rw [Command.prepare, Command.prepare, parsed, parsedOther]
      dsimp only
      rw [prepared, preparedOther]
    rw [Command.compileSource, Command.compileSource, Command.compileMarkup,
      Command.compileMarkup, prepares]
  · intro before behind node name field shape last
    have decided := last_attribute_decides parsed prepared shape last
    refine ⟨decided, ?_⟩
    intro read request output success
    have isDirective : (node, Directive.bindAttribute name field) ∈ markup.directives := by
      simp [shape]
    have isBound : (renderer.metadata.ofNode node).attributes.find? name =
        some (fieldProvider field) := congrArg Prod.snd decided
    obtain ⟨element, writes⟩ := exists_writesBinding parsed prepared success isDirective
    refine ⟨element, writes _ ?_, Entries.not_mem_keys_eraseAll element.distinctAttributes
      (SortedMap.mem_keys_of_find? isBound)⟩
    exact List.mem_append_left _
      (List.mem_map.mpr ⟨_, (SortedMap.find?_eq_some_iff ..).mp isBound, rfl⟩)
  · intro before behind node name field shape last
    have decided := last_property_decides parsed prepared shape last
    refine ⟨decided, ?_⟩
    intro read request output success
    have isDirective : (node, Directive.bindProperty name field) ∈ markup.directives := by
      simp [shape]
    have isBound : (renderer.metadata.ofNode node).properties.find? name =
        some (fieldProvider field) := congrArg Prod.snd decided
    obtain ⟨element, writes⟩ := exists_writesBinding parsed prepared success isDirective
    refine ⟨element, writes _ ?_, Entries.not_mem_keys_eraseAll element.distinctProperties
      (SortedMap.mem_keys_of_find? isBound)⟩
    exact List.mem_append_right _
      (List.mem_map.mpr ⟨_, (SortedMap.find?_eq_some_iff ..).mp isBound, rfl⟩)

def paragraph (rows : List (Text × Item)) : Text :=
  '<' :: (['p'] ++ (rows.flatMap (fun row => ' ' :: row.1) ++ ['>']) ++ "</p>".toList)

theorem spells_paragraph {rows : List (Text × Item)} (areItems : ∀ row ∈ rows, IsItem row.1 row.2) :
    Spells (paragraph rows) [.paired ['p'] (rows.map Prod.snd) [] ['p']] := by
  have isName : IsTagName ['p'] := isName_of_all rfl rfl
  have none : IsSpaces [] := List.forall_mem_nil _
  have items : AreItems (rows.flatMap fun row => ' ' :: row.1) (rows.map Prod.snd) := by
    induction rows with
    | nil => exact .none
    | cons row rest ih =>
      rw [List.forall_mem_cons] at areItems
      have space : IsSpaces [' '] := List.forall_mem_singleton.mpr rfl
      exact .more space (List.cons_ne_nil _ _) areItems.1 (ih areItems.2)
  exact .paired (.spelled isName items (.opening none)) .nothing (.spelled isName none) .nothing

def flagItem (sigil : Sigil) (name : Text) : Text × Item :=
  (sigil.text ++ name, ⟨sigil, name, none⟩)

def valuedItem (sigil : Sigil) (name value : Text) : Text × Item :=
  (sigil.text ++ (name ++ '=' :: '\x27' :: (value ++ ['\x27'])), ⟨sigil, name, some value⟩)

/-- A title between two bindings of it, a listener and a mode. -/
def titledRows : List (Text × Item) :=
  [valuedItem .bindAttribute ['a'] ['f'], valuedItem .bare ['a'] ['x'], flagItem .listen ['k'],
    valuedItem .bare interpolationItem "off".toList, valuedItem .bindAttribute ['a'] ['g']]

def movedRows : List (Text × Item) :=
  [valuedItem .bare interpolationItem "off".toList, valuedItem .bindAttribute ['a'] ['f'],
    valuedItem .bindAttribute ['a'] ['g'], flagItem .listen ['k'], valuedItem .bare ['a'] ['x']]

example : paragraph titledRows =
    "<p :a=\x27f\x27 a=\x27x\x27 @k lite:interpolation=\x27off\x27 :a=\x27g\x27></p>".toList := by
  decide

theorem areItems_titledRows : ∀ row ∈ titledRows, IsItem row.1 row.2 := by
  have none : IsSpaces [] := List.forall_mem_nil _
  have valued (sigil : Sigil) {name value : Text} (isName : IsItemName name)
      (inside : '\x27' ∉ value) :
      IsItem (valuedItem sigil name value).1 (valuedItem sigil name value).2 :=
    .assigned sigil isName (.quoted none none (Or.inr rfl) inside)
  have letter (first : Char) (starts : startsItemName first = true) : IsItemName [first] :=
    isName_of_all starts rfl
  refine List.forall_mem_cons.mpr ⟨valued .bindAttribute (letter 'a' rfl) (by decide), ?_⟩
  refine List.forall_mem_cons.mpr ⟨valued .bare (letter 'a' rfl) (by decide), ?_⟩
  refine List.forall_mem_cons.mpr ⟨.flag .listen (letter 'k' rfl), ?_⟩
  refine List.forall_mem_cons.mpr ⟨valued .bare isItemName_interpolationItem (by decide), ?_⟩
  exact List.forall_mem_singleton.mpr (valued .bindAttribute (letter 'a' rfl) (by decide))

theorem isReordering_titledRows : IsReordering (paragraph titledRows) (paragraph movedRows) := by
  have sameRows : ∀ row ∈ movedRows, row ∈ titledRows := by
    decide
  have rearranged : Rearranged (titledRows.map Prod.snd) (movedRows.map Prod.snd) :=
    ⟨by decide, by decide, by decide, by decide⟩
  exact ⟨_, _, spells_paragraph areItems_titledRows,
    spells_paragraph fun row member => areItems_titledRows row (sameRows row member),
    .paired ['p'] ['p'] rearranged .nothing .nothing⟩

theorem titled_paragraph_reordered :
    IsReordering (paragraph titledRows) (paragraph movedRows) ∧
      ∃ markup renderer, Markup.parse (paragraph titledRows) = .ok markup ∧
        markup.renderer id = .ok renderer ∧
        (∀ (read : Command.FileReader) (request : Command.Request),
          Command.compileSource read (paragraph movedRows) request =
            Command.compileSource read (paragraph titledRows) request) ∧
        (renderer.draft.attributesAt 0).under ['a'] = (none, some (fieldProvider ['g'])) ∧
        ∃ output element, Command.compileSource (fun _ => .error .notFound) (paragraph titledRows)
            ⟨[], none, false⟩ = .ok output ∧
          WritesBinding renderer ⟨[], none, false⟩ output 0 element
            ⟨[], ['a'], fieldProvider ['g']⟩ := by
  have computed : (Markup.parse (paragraph titledRows)).toOption.any (fun markup =>
      (markup.renderer id).toBool && decide (markup.directives =
        [(0, .bindAttribute ['a'] ['f']), (0, .listen ['k'] none), (0, .interpolate false),
          (0, .bindAttribute ['a'] ['g'])])) = true := by
    decide +kernel
  obtain ⟨markup, parsed, holds⟩ := exists_ok_of_any computed
  obtain ⟨succeeds, directives⟩ := Bool.and_eq_true_iff.mp holds
  obtain ⟨renderer, prepared⟩ := exists_ok succeeds
  obtain ⟨compiles, bindings, -⟩ :=
    reordered_items_compile_alike isReordering_titledRows parsed prepared
  obtain ⟨last, writes⟩ := bindings [(0, .bindAttribute ['a'] ['f']), (0, .listen ['k'] none),
    (0, .interpolate false)] [] 0 ['a'] ['g'] (of_decide_eq_true directives)
    fun _ => List.not_mem_nil
  have outputs : (Command.compileSource (fun _ => .error .notFound) (paragraph titledRows)
      ⟨[], none, false⟩).toBool = true := by
    decide +kernel
  obtain ⟨output, success⟩ := exists_ok outputs
  obtain ⟨element, written, -⟩ := writes _ _ output success
  exact ⟨isReordering_titledRows, markup, renderer, parsed, prepared, compiles, last, output, element,
    success, written⟩

end Markup

end TreeTemplate
