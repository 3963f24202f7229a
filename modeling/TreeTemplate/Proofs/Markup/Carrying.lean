import TreeTemplate.Proofs.Document.Building
import TreeTemplate.Proofs.Markup.Layout

/-!
# What parsed markup carries

Parsed markup carries the forest that its source lays out: its document holds the nodes of the
forest, in pre-order, with the literals that their items set, and its directives are those of the
items, in the order of the source, each with the identity of the element in whose tag it stands.
-/
set_option autoImplicit false

namespace TreeTemplate.Markup

open Text

/-- The forest below identities, with its directives. The nodes are those from `first` on, in
pre-order, up to `next`. -/
inductive Carried (node? : NodeId → Option Node) :
    Nat → List NodeId → List Declared → List (NodeId × Directive) → Nat → Prop where
  | done {first : Nat} : Carried node? first [] [] [] first
  | text {first next : Nat} {content : Text} {ids : List NodeId} {forest : List Declared}
      {directives : List (NodeId × Directive)} (found : node? first = some (.text content))
      (later : Carried node? (first + 1) ids forest directives next) :
      Carried node? first (first :: ids) (.text content :: forest) directives next
  | element {first middle next : Nat} {element : Element} {declarations : List Declaration}
      {ids : List NodeId} {children forest : List Declared}
      {inner outer : List (NodeId × Directive)} (found : node? first = some (.element element))
      (attributes : element.attributes =
        Entries.upsertAll [] (declarations.filterMap Declaration.attribute?))
      (properties : element.properties =
        Entries.upsertAll [] (declarations.filterMap Declaration.property?))
      (inside : Carried node? (first + 1) element.children children inner middle)
      (later : Carried node? middle ids forest outer next) :
      Carried node? first (first :: ids) (.element element.tag declarations children :: forest)
        ((declarations.filterMap Declaration.directive?).map (fun directive => (first, directive)) ++
          (inner ++ outer)) next

def Carries (markup : Markup) (forest : List Declared) : Prop :=
  Carried markup.document.node? 0 markup.roots forest markup.directives markup.document.size

/-- Built in pre-order, the nodes of a forest are where its directives look for them. -/
theorem carried_of_spans {node? : NodeId → Option Node} {first next : Nat} {ids : List NodeId}
    {forest : List Declared}
    (spans : Spans node? first ids (Blueprint.settledAll (Declared.blueprints forest)) next) :
    Carried node? first ids forest (Declared.directivesOfAll first forest) next ∧
      next = first + Declared.sizeAll forest := by
  generalize shape : Blueprint.settledAll (Declared.blueprints forest) = blueprints at spans
  induction spans generalizing forest with
  | done =>
    cases forest with
    | nil => exact ⟨.done, rfl⟩
    | cons tree rest => cases shape
  | text found later ih =>
    cases forest with
    | nil => cases shape
    | cons tree rest =>
      obtain ⟨same, sameRest⟩ := List.cons.inj shape
      cases tree with
      | element tag declarations children => cases same
      | text content =>
        obtain rfl := Blueprint.text.inj same
        obtain ⟨carried, last⟩ := ih sameRest
        refine ⟨.text found carried, ?_⟩
        rw [last, Declared.sizeAll, Declared.size]
        omega
  | @element first middle next element ids _ _ found inside later ihInside ihLater =>
    cases forest with
    | nil => cases shape
    | cons tree rest =>
      obtain ⟨same, sameRest⟩ := List.cons.inj shape
      cases tree with
      | text content => cases same
      | element tag declarations children =>
        obtain ⟨rfl, attributes, properties, sameChildren⟩ := Blueprint.element.inj same
        obtain ⟨carriedInside, behindInside⟩ := ihInside sameChildren
        obtain ⟨carriedLater, last⟩ := ihLater sameRest
        have carried :=
          Carried.element found attributes.symm properties.symm carriedInside carriedLater
        have behind : first + (Declared.sizeAll children + 1) = middle := by omega
        rw [Declared.directivesOfAll, Declared.directives, Declared.sizeAll, Declared.size,
          List.append_assoc, behind]
        exact ⟨carried, by omega⟩

theorem carries_ofDeclared (forest : List Declared) : (ofDeclared forest).Carries forest :=
  (carried_of_spans (Document.spans_buildAll (Declared.blueprints forest) Document.empty).1).1

theorem carries_of_parse {source : Text} {markup : Markup} (parsed : Markup.parse source = .ok markup) :
    ∃ forest, markup.Carries forest ∧ forest ≠ [] := by
  rw [Markup.parse] at parsed
  split at parsed
  · cases parsed
  · split at parsed
    · cases parsed
    · cases parsed
    · rename_i forest filled _
      obtain rfl := Except.ok.inj parsed
      exact ⟨forest, carries_ofDeclared forest, filled⟩

/-- However a forest is laid out, it is parsed, and carried by what is parsed. -/
theorem parse_of_laysOut {source : Text} {forest : List Declared} (laysOut : LaysOut source forest)
    (filled : forest ≠ []) :
    ∃ markup, Markup.parse source = .ok markup ∧ markup.Carries forest :=
  ⟨ofDeclared forest, parse_of_declares laysOut.declares filled, carries_ofDeclared forest⟩

/-- Items of most kinds, one of them repeated, with spaces and line breaks wherever they can be. -/
def looseItems : Text :=
  " a = \x22x&quot;y\x22 :b=\x27f\x27 :.c=\x22g\x22\n@d=\x22u, v\x22 .e:bool=\x22true\x22".toList ++
    " a=\x27\x27 lite:interpolation=\x22off\x22".toList

def looseSource : Text :=
  "\n &lt;1 & \x222\x22\n<t-1".toList ++ looseItems ++
    " ><br/><i\n></i >end</t-1 >\n".toList

def looseDeclarations : List Declaration :=
  [.setAttribute ['a'] "x\x22y".toList, .directive (.bindAttribute ['b'] ['f']),
    .directive (.bindProperty ['c'] ['g']),
    .directive (.listen ['d'] (some ["u".toList, "v".toList])),
    .setProperty ['e'] (.bool true), .setAttribute ['a'] [], .directive (.interpolate false)]

def looseForest : List Declared :=
  [.text "<1 & \x222\x22".toList,
    .element "t-1".toList looseDeclarations
      [.element "br".toList [] [], .element "i".toList [] [], .text "end".toList]]

theorem assigns_tight {quote : Char} (isQuote : quote = '\x22' ∨ quote = '\x27') (raw : Text)
    (inside : quote ∉ raw) : Assigns ('=' :: quote :: (raw ++ [quote])) (decodeEntities raw) :=
  ⟨raw, .quoted (List.forall_mem_nil _) (List.forall_mem_nil _) isQuote inside,
    isEncoded_decoded raw⟩

theorem declaresItems_loose : DeclaresItems looseItems looseDeclarations := by
  have space : IsSpaces [' '] := List.forall_mem_singleton.mpr rfl
  have lineBreak : IsSpaces ['\n'] := List.forall_mem_singleton.mpr rfl
  have letter (first : Char) (starts : startsItemName first = true) : IsItemName [first] :=
    isName_of_all starts rfl
  have title : Assigns " = \x22x&quot;y\x22".toList "x\x22y".toList :=
    ⟨_, .quoted space space (Or.inl rfl) (by decide : '\x22' ∉ "x&quot;y".toList),
      isEncoded_decoded _⟩
  have listened := DeclaresItem.listenWith (letter 'd' rfl)
    (assigns_tight (Or.inl rfl) "u, v".toList (by decide))
  have enabled := DeclaresItem.typedProperty (letter 'e' rfl) (by decide) .affirmed
    (assigns_tight (Or.inl rfl) "true".toList (by decide))
  have mode := DeclaresItem.interpolate false
    (assigns_tight (Or.inl rfl) "off".toList (by decide))
  have last := DeclaresItems.more space (List.cons_ne_nil _ _) mode .none
  have again := DeclaresItems.more space (List.cons_ne_nil _ _)
    (.setAttribute (letter 'a' rfl) (by decide) (assigns_tight (Or.inr rfl) [] (by decide))) last
  have property := DeclaresItems.more space (List.cons_ne_nil _ _) enabled again
  have listener := DeclaresItems.more lineBreak (List.cons_ne_nil _ _) listened property
  have second := DeclaresItems.more space (List.cons_ne_nil _ _)
    (.bindProperty (letter 'c' rfl) (assigns_tight (Or.inl rfl) ['g'] (by decide))) listener
  have first := DeclaresItems.more space (List.cons_ne_nil _ _)
    (.bindAttribute (letter 'b' rfl) (assigns_tight (Or.inr rfl) ['f'] (by decide))) second
  exact .more space (List.cons_ne_nil _ _) (.setAttribute (letter 'a' rfl) (by decide) title) first

set_option maxRecDepth 2000 in
theorem laysOut_loose : LaysOut looseSource looseForest := by
  have none : IsSpaces [] := List.forall_mem_nil _
  have space : IsSpaces [' '] := List.forall_mem_singleton.mpr rfl
  have lineBreak : IsSpaces ['\n'] := List.forall_mem_singleton.mpr rfl
  have blank : IsBlanks ['\n'] := List.forall_mem_singleton.mpr rfl
  have blanks : IsBlanks ['\n', ' '] := isBlanks_append blank (List.forall_mem_singleton.mpr rfl)
  have nothing : Pending [] [] := .blank (List.forall_mem_nil _)
  have start := Pending.text blanks (isEncoded_decoded "&lt;1 & \x222\x22".toList) (by decide)
    ⟨by decide, by decide, by decide⟩ blank
  have finish := Pending.text (List.forall_mem_nil _) (isEncoded_decoded "end".toList) (by decide)
    ⟨by decide, by decide, by decide⟩ (List.forall_mem_nil _)
  have outer : IsTagName "t-1".toList := isName_of_all rfl rfl
  have void : IsTagName "br".toList := isName_of_all rfl rfl
  have childless : IsTagName "i".toList := isName_of_all rfl rfl
  have inside := LaysOut.void nothing void .none none
    (.paired nothing childless .none lineBreak (.last nothing) space (.last finish))
  exact .paired start outer declaresItems_loose space inside space (.last (.blank blank))

theorem loose_source_is_carried :
    LaysOut looseSource looseForest ∧ looseForest ≠ [] ∧
      ∃ markup, Markup.parse looseSource = .ok markup ∧ markup.Carries looseForest :=
  ⟨laysOut_loose, List.cons_ne_nil _ _, parse_of_laysOut laysOut_loose (List.cons_ne_nil _ _)⟩

end TreeTemplate.Markup
