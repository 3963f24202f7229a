import TreeTemplate.Proofs.Document.Building
import TreeTemplate.Proofs.Markup.Plain
import TreeTemplate.Template.Compiler

/-!
# Parsing what was compiled

A plain forest that a document shows is compiled to a template that is markup, and the document that
is parsed from it shows the same forest. Nothing is bound to the nodes of a plain forest and no
policy adds to them, so that each stop of the tour adds a text of its own to the template.
-/
set_option autoImplicit false

namespace TreeTemplate

variable {ι ω : Type}

def Surroundings.bare : Surroundings ι ω :=
  ⟨SortedMap.empty, []⟩

def Stop.IsLiteral : Stop → Prop
  | .text _ _ _ => True
  | .enter _ _ element _ _ => element.properties = []
  | .leave _ _ _ => True
  | .missing _ => False
  | .endless _ => False

def Stop.literalText : Stop → Text
  | .text depth interpolate content => padding depth ++ encodeText interpolate content
  | .enter depth _ element _ interpolate =>
    padding depth ++ '<' :: (element.tag ++ ((writeAttributes interpolate element.attributes).text ++
      ['>']))
  | .leave depth tag childless =>
    (if childless then [] else padding depth) ++ '<' :: '/' :: (tag ++ ['>'])
  | .missing _ => []
  | .endless _ => []

theorem emit_bare (document : Document) (registry : Registry ι ω) (stop : Stop)
    (isLiteral : stop.IsLiteral) :
    (stop.emit Surroundings.bare document registry).fault = none ∧
      (stop.emit Surroundings.bare document registry).text = stop.literalText := by
  cases stop with
  | text depth interpolate content => exact ⟨rfl, rfl⟩
  | enter depth id element inherited interpolate =>
    obtain ⟨tag, attributes, properties, children, distinctAttributes, distinctProperties⟩ := element
    obtain rfl : properties = [] := isLiteral
    refine ⟨rfl, ?_⟩
    change padding depth ++ '<' :: tag ++ [] ++ (writeAttributes interpolate attributes).text ++
      [] ++ [] ++ [] ++ ['>'] = _
    simp [Stop.literalText]
  | leave depth tag childless =>
    cases childless <;> simp [Stop.emit, Stop.literalText]
  | missing id => exact absurd isLiteral not_false
  | endless id => exact absurd isLiteral not_false

theorem transcribe_bare (document : Document) (registry : Registry ι ω) (tour : List Stop)
    (areLiteral : ∀ stop ∈ tour, stop.IsLiteral) :
    (transcribe Surroundings.bare document registry tour).fault = none ∧
      (transcribe Surroundings.bare document registry tour).text =
        tour.flatMap Stop.literalText := by
  induction tour generalizing document registry with
  | nil => exact ⟨rfl, rfl⟩
  | cons stop rest ih =>
    rw [List.forall_mem_cons] at areLiteral
    obtain ⟨sound, text⟩ := emit_bare (stop.strip Surroundings.bare.metadata document) registry stop
      areLiteral.1
    rw [transcribe]
    dsimp only
    rw [sound]
    dsimp only
    obtain ⟨later, texts⟩ := ih (stop.strip Surroundings.bare.metadata document)
      (stop.emit Surroundings.bare (stop.strip Surroundings.bare.metadata document) registry).registry
      areLiteral.2
    exact ⟨later, by rw [text, texts, List.flatMap_cons]⟩

namespace Markup

theorem IsPlain.of_element {tag : Text} {attributes : Entries Text Text}
    {properties : Entries Text PropertyValue} {children rest : List Blueprint}
    (plain : IsPlain (.element tag attributes properties children :: rest)) :
    properties = [] ∧ IsPlain children ∧ IsPlain rest := by
  cases plain with
  | element isName attributes inside later => exact ⟨rfl, inside, later⟩

theorem IsPlain.of_text {content : Text} {rest : List Blueprint}
    (plain : IsPlain (.text content :: rest)) : IsPlain rest := by
  cases plain with
  | text isPlain apart later => exact later

theorem tour_plain {document : Document} {ids : List NodeId} {forest : List Blueprint}
    (shows : document.ShowsAll ids forest) (plain : IsPlain forest) (modes : NodeId → Interpolation)
    (inherit : ∀ id, modes id = .inherit) (bound depth : Nat)
    (bounded : ∀ stop ∈ ids.flatMap (document.tourFrom modes bound depth true), stop.IsBounded) :
    (∀ stop ∈ ids.flatMap (document.tourFrom modes bound depth true), stop.IsLiteral) ∧
      (ids.flatMap (document.tourFrom modes bound depth true)).flatMap Stop.literalText =
        writtenAll depth forest := by
  induction shows generalizing bound depth with
  | done => exact ⟨fun _ impossible => (by cases impossible), rfl⟩
  | text found later ih =>
    rw [List.flatMap_cons, tourFrom_text found] at bounded ⊢
    rw [List.forall_mem_append] at bounded
    obtain ⟨areLiteral, texts⟩ := ih plain.of_text bound depth bounded.2
    refine ⟨List.forall_mem_append.mpr ⟨List.forall_mem_singleton.mpr trivial, areLiteral⟩, ?_⟩
    rw [List.flatMap_append, List.flatMap_singleton, texts]
    rfl
  | @element id element ids children forest found inside later ihInside ihLater =>
    obtain ⟨noProperties, plainChildren, plainLater⟩ := plain.of_element
    rw [List.flatMap_cons, List.forall_mem_append] at bounded
    obtain ⟨areLiteralLater, textsLater⟩ := ihLater plainLater bound depth bounded.2
    cases bound with
    | zero =>
      have endless := bounded.1 (.endless id) (by rw [Document.tourFrom, found]; simp)
      exact absurd endless not_false
    | succ bound =>
      have mode : (modes id).resolve true = true := by
        rw [inherit id]
        rfl
      have boundedBelow := bounded.1
      rw [tourFrom_element found, mode, List.forall_mem_cons, List.forall_mem_append]
        at boundedBelow
      obtain ⟨areLiteral, texts⟩ := ihInside plainChildren bound (depth + 1) boundedBelow.2.1
      rw [List.flatMap_cons, tourFrom_element found, mode]
      refine ⟨?_, ?_⟩
      · refine List.forall_mem_append.mpr ⟨?_, areLiteralLater⟩
        refine List.forall_mem_cons.mpr ⟨noProperties, ?_⟩
        exact List.forall_mem_append.mpr ⟨areLiteral, List.forall_mem_singleton.mpr trivial⟩
      · rw [List.flatMap_append, textsLater, List.flatMap_cons, List.flatMap_append]
        rw [texts, List.flatMap_singleton, writtenAll, written]
        simp only [Stop.literalText, inside.isEmpty, List.append_assoc, List.cons_append,
          List.nil_append]

theorem compile_plain {document : Document} {roots : List NodeId} {forest : List Blueprint}
    (shows : document.ShowsAll roots forest) (plain : IsPlain forest)
    (named : SortedMap Text (Provider ι)) :
    ∃ compiled : CompiledTemplate ι ω,
      (compile Surroundings.bare document roots named).outcome = .ok compiled ∧
        compiled.template = writtenAll 0 forest ++ ['\n'] := by
  have bounded := document.bounded_tour shows.acyclicBelow
    (Surroundings.bare : Surroundings ι ω).metadata.interpolation
  obtain ⟨areLiteral, texts⟩ := tour_plain shows plain
    (Surroundings.bare : Surroundings ι ω).metadata.interpolation (fun _ => rfl) _ _ bounded
  obtain ⟨sound, text⟩ := transcribe_bare document (Registry.ofNamed named : Registry ι ω)
    (document.tour (Surroundings.bare : Surroundings ι ω).metadata.interpolation roots) areLiteral
  rw [compile]
  dsimp only
  rw [sound]
  refine ⟨_, rfl, ?_⟩
  rw [text, ← texts]
  rfl

/-- What a plain forest is compiled to is parsed to the same forest, with no directives. -/
theorem parse_compiled {document : Document} {roots : List NodeId} {forest : List Blueprint}
    (shows : document.ShowsAll roots forest) (plain : IsPlain forest) (filled : forest ≠ [])
    (named : SortedMap Text (Provider ι)) :
    ∃ (compiled : CompiledTemplate ι ω) (markup : Markup),
      (compile Surroundings.bare document roots named).outcome = .ok compiled ∧
        Markup.parse compiled.template = .ok markup ∧ markup.directives = [] ∧
          markup.document.ShowsAll markup.roots forest := by
  obtain ⟨compiled, outcome, template⟩ := compile_plain (ω := ω) shows plain named
  have lineEnd : Text.IsBlanks ['\n'] := List.forall_mem_singleton.mpr rfl
  obtain ⟨declared, describes, trees, spells, interprets⟩ := declares_writtenAll plain 0
    (.blank (List.forall_mem_nil _)) lineEnd (fun _ _ _ => rfl)
  rw [List.nil_append] at spells interprets
  have declares : declared ≠ [] := by
    rintro rfl
    exact filled describes.blueprints.symm
  have parsed : Markup.parse compiled.template = .ok (Markup.ofDeclared declared) := by
    rw [Markup.parse, template, read_spelling spells]
    dsimp only
    rw [interprets]
    cases declared with
    | nil => exact absurd rfl declares
    | cons first rest => rfl
  refine ⟨compiled, _, outcome, parsed, describes.undirected 0, ?_⟩
  have built := Document.ShowsAll.buildAll shows Document.empty
  rw [← describes.blueprints] at built ⊢
  exact built

/-- Values with quotes of both kinds, and a text that looks like entities, tags and a placeholder. -/
def trickyForest : List Blueprint :=
  let titled : Entries Text Text :=
    [("title".toList, "say \x22it\x27s\x22 &amp; <more>".toList), ("hidden".toList, [])]
  [.element "p".toList titled []
      [.element "br".toList [("alt".toList, ['\x22'])] [] [],
        .text "a &lt; <b> \\ $\x7b".toList],
    .text "end".toList]

theorem builds_trickyForest : Blueprint.settledAll trickyForest = trickyForest :=
  rfl

theorem isPlain_trickyForest : IsPlain trickyForest := by
  have title : IsPlainAttribute ("title".toList, "say \x22it\x27s\x22 &amp; <more>".toList) :=
    ⟨isName_of_all rfl rfl, by decide, by decide⟩
  have hidden : IsPlainAttribute ("hidden".toList, []) :=
    ⟨isName_of_all rfl rfl, by decide, by decide⟩
  have alt : IsPlainAttribute ("alt".toList, ['\x22']) :=
    ⟨isName_of_all rfl rfl, by decide, by decide⟩
  have lookalike : IsPlainText "a &lt; <b> \\ $\x7b".toList :=
    ⟨⟨by decide, by decide, by decide⟩, by decide, by decide⟩
  have last : IsPlainText "end".toList :=
    ⟨⟨by decide, by decide, by decide⟩, by decide, by decide⟩
  have alone (other : Blueprint) (later : List Blueprint) : [] ≠ other :: later :=
    (List.cons_ne_nil _ _).symm
  have inside : IsPlain [.element "br".toList [("alt".toList, ['\x22'])] [] [],
      .text "a &lt; <b> \\ $\x7b".toList] :=
    .element (isName_of_all rfl rfl) (List.forall_mem_singleton.mpr alt) .nothing
      (.text lookalike (fun _ _ => alone _ _) .nothing)
  exact .element (isName_of_all rfl rfl)
    (List.forall_mem_cons.mpr ⟨title, List.forall_mem_singleton.mpr hidden⟩) inside
    (.text last (fun _ _ => alone _ _) .nothing)

theorem tricky_forest_is_parsed_back :
    let built := Document.empty.buildAll trickyForest
    built.2.ShowsAll built.1 trickyForest ∧ IsPlain trickyForest ∧ trickyForest ≠ [] ∧
      ∃ (compiled : CompiledTemplate Json Text) (markup : Markup),
        (compile Surroundings.bare built.2 built.1 SortedMap.empty).outcome = .ok compiled ∧
          Markup.parse compiled.template = .ok markup ∧ markup.directives = [] ∧
            markup.document.ShowsAll markup.roots trickyForest := by
  intro built
  have shows : built.2.ShowsAll built.1 trickyForest :=
    Document.showsAll_buildAll builds_trickyForest Document.empty
  have filled : trickyForest ≠ [] := List.cons_ne_nil _ _
  exact ⟨shows, isPlain_trickyForest, filled,
    parse_compiled shows isPlain_trickyForest filled SortedMap.empty⟩

end Markup

end TreeTemplate
