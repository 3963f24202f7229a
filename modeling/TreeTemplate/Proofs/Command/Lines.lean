import TreeTemplate.Command.Compile
import TreeTemplate.Proofs.Json.OneLine
import TreeTemplate.Proofs.Markup.Interpretation
import TreeTemplate.Proofs.Markup.Outline
import TreeTemplate.Proofs.Template.Naming

/-!
# From items to lines

Behind its template, a compiled file has one line for each item. A line says what the item holds in
the fields that are listed, under their own names, and in the fields that the elements bind, each
under the synthetic name that the template has at that very place. The names that are listed count as
a set, and no synthetic name is one of them.
-/
set_option autoImplicit false

namespace TreeTemplate.Command

open Markup

def listed (properties : List Text) : SortedMap Text (Provider Json) :=
  SortedMap.ofList (properties.map fun name => (name, fieldProvider name))

theorem find?_listed (properties : List Text) (name : Text) :
    (listed properties).find? name =
      if name ∈ properties then some (fieldProvider name) else none := by
  have present := SortedMap.has_ofList_iff
    (properties.map fun property => (property, fieldProvider property)) name
  have keys : Entries.keys (properties.map fun property => (property, fieldProvider property)) =
      properties := by
    rw [Entries.keys, List.map_map]
    exact List.map_id properties
  rw [keys, SortedMap.has] at present
  cases found : (listed properties).find? name with
  | none =>
    rw [if_neg]
    intro isListed
    have isSome := present.mpr isListed
    rw [show SortedMap.ofList _ = listed properties from rfl, found] at isSome
    cases isSome
  | some provider =>
    obtain ⟨property, isListed, same⟩ :=
      List.mem_map.mp ((SortedMap.find?_ofList_iff _ name provider).mp found).mem
    obtain ⟨rfl, rfl⟩ := Prod.mk.inj same
    rw [if_pos isListed]

/-- Neither the order nor the repetition of listed names matters. -/
theorem listed_congr {left right : List Text} (same : ∀ name, name ∈ left ↔ name ∈ right) :
    listed left = listed right := by
  apply SortedMap.ext_find?
  intro name
  rw [find?_listed, find?_listed]
  simp only [same]

theorem has_listed_iff (properties : List Text) (name : Text) :
    (listed properties).has name = true ↔ name ∈ properties := by
  rw [SortedMap.has, find?_listed]
  split <;> simp_all

theorem foldl_withProperty (properties : List Text) {renderer : Renderer Json LogRecord}
    (unnamed : renderer.named = SortedMap.empty) (fresh : renderer.kept = none) :
    properties.foldl (fun current name => current.withProperty name (fieldProvider name)) renderer =
      { renderer with named := listed properties } := by
  induction properties using List.reverseRecOn with
  | nil =>
    obtain ⟨draft, roots, named, policies, kept, issued⟩ := renderer
    obtain rfl : named = SortedMap.empty := unnamed
    rfl
  | append_singleton properties name ih =>
    have extended : listed (properties ++ [name]) =
        (listed properties).insert name (fieldProvider name) := by
      rw [listed, List.map_append]
      exact SortedMap.ofList_concat _ name (fieldProvider name)
    rw [List.foldl_append, ih, extended, List.foldl_cons, List.foldl_nil, Renderer.withProperty,
      fresh]

def equipped (request : Request) (base : Renderer Json LogRecord) : Renderer Json LogRecord :=
  { base with
    named := listed request.properties
    policies := if request.buttonActivation then [buttonPolicy] else [] }

theorem prepare_eq {source : Text} (request : Request) {markup : Markup}
    {base : Renderer Json LogRecord} (parsed : Markup.parse source = .ok markup)
    (rendered : markup.renderer id = .ok base)
    (applied : Applied id markup markup.directives base) :
    prepare source request = .ok (equipped request base) := by
  rw [prepare, parsed]
  dsimp only
  rw [rendered]
  dsimp only
  rw [foldl_withProperty _ applied.named applied.kept, equipped]
  have unruled := applied.policies
  have fresh := applied.kept
  obtain ⟨draft, roots, named, policies, kept, issued⟩ := base
  simp only at unruled fresh
  subst unruled fresh
  cases request.buttonActivation <;> rfl

/-- What is prepared comes from markup that was laid out. -/
theorem prepare_cases {source : Text} {request : Request} {renderer : Renderer Json LogRecord}
    (success : prepare source request = .ok renderer) :
    ∃ forest markup base, Markup.parse source = .ok markup ∧ LaysOut source forest ∧
      markup.Carries forest ∧ markup.renderer id = .ok base ∧
        Applied id markup markup.directives base ∧ renderer = equipped request base := by
  cases parsed : Markup.parse source with
  | error reason =>
    rw [prepare, parsed] at success
    cases success
  | ok markup =>
    obtain ⟨forest, laysOut, filled, rfl⟩ := (parse_eq_ok_iff source markup).mp parsed
    have carries := carries_ofDeclared forest
    rcases carries.renderer_cases id filled with
      ⟨base, rendered, applied, -⟩ | ⟨event, failed, -⟩
    · rw [prepare_eq request parsed rendered applied] at success
      exact ⟨forest, _, base, rfl, laysOut, carries, rendered, applied,
        (Except.ok.inj success).symm⟩
    · rw [prepare, parsed] at success
      dsimp only at success
      rw [failed] at success
      cases success

/-- The same names in another order, or repeated, prepare the same. -/
theorem prepare_congr {source : Text} {request : Request} {renderer : Renderer Json LogRecord}
    (success : prepare source request = .ok renderer) {others : List Text}
    (same : ∀ name, name ∈ others ↔ name ∈ request.properties) :
    prepare source { request with properties := others } = .ok renderer := by
  obtain ⟨forest, markup, base, parsed, -, -, rendered, applied, rfl⟩ := prepare_cases success
  rw [prepare_eq _ parsed rendered applied, equipped, equipped, listed_congr same]

theorem compileMarkup_cases {source : Text} {request : Request}
    {compiled : CompiledTemplate Json LogRecord}
    (success : compileMarkup source request = .ok compiled) :
    ∃ renderer issue, prepare source request = .ok renderer ∧ renderer.render.1 = .ok issue ∧
      issue.compiled = compiled := by
  rw [compileMarkup] at success
  split at success
  · cases success
  · rename_i renderer prepared
    split at success
    · cases success
    · rename_i issue rendered
      exact ⟨renderer, issue, prepared, rendered, Except.ok.inj success⟩

theorem compileMarkup_congr {source : Text} {request : Request}
    {compiled : CompiledTemplate Json LogRecord}
    (success : compileMarkup source request = .ok compiled) {others : List Text}
    (same : ∀ name, name ∈ others ↔ name ∈ request.properties) :
    compileMarkup source { request with properties := others } = .ok compiled := by
  obtain ⟨renderer, issue, prepared, rendered, rfl⟩ := compileMarkup_cases success
  rw [compileMarkup, prepare_congr prepared same]
  dsimp only
  rw [rendered]

theorem compilation_of_render {ι ω : Type} {renderer : Renderer ι ω} {issue : Issue ι ω}
    (fresh : renderer.kept = none) (rendered : renderer.render.1 = .ok issue) :
    renderer.compilation.outcome = .ok issue.compiled := by
  rw [Renderer.render, fresh] at rendered
  dsimp only at rendered
  cases outcome : renderer.compilation.outcome with
  | error reason =>
    rw [outcome] at rendered
    cases rendered
  | ok compiled =>
    rw [outcome] at rendered
    rw [← Except.ok.inj rendered]

structure Resolves (properties : List Text) (segments : List (Segment Json LogRecord))
    (bindings : Bindings Json LogRecord) : Prop where
  keys : ∀ item name, name ∈ (bindings.resolve item).keys ↔ name ∈ properties ∨
    ∃ place < (bindingsOf segments).length, name = syntheticName (listed properties) place
  named : ∀ item, ∀ name ∈ properties,
    (bindings.resolve item).find? name = some (Json.field name item)
  bound : ∀ item place binding, (bindingsOf segments)[place]? = some binding →
    (bindings.resolve item).find? (syntheticName (listed properties) place) =
      some (binding.provider item)
  apart : ∀ place, syntheticName (listed properties) place ∉ properties
  distinct : Function.Injective (syntheticName (listed properties))

theorem resolves_of_records {properties : List Text} {segments : List (Segment Json LogRecord)}
    {registry : Registry Json LogRecord}
    (records : Registry.Records (listed properties)
      ((bindingsOf segments).map DynamicBinding.provider)
      ((listenersOf segments).map fun pair => pair.2.handler) registry) :
    Resolves properties segments registry.finish := by
  have found := find?_property_iff_isBound records
  have resolve (item : Json) (name : Text) : (registry.finish.resolve item).find? name =
      (registry.properties.find? name).map fun provider => provider item :=
    SortedMap.find?_map _ _ _
  refine ⟨?_, ?_, ?_, ?_, syntheticName_injective _⟩
  · intro item name
    rw [← SortedMap.has_iff_mem_keys, SortedMap.has, resolve, Option.isSome_map,
      Option.isSome_iff_exists]
    simp only [found, IsBound]
    constructor
    · rintro ⟨provider, isNamed | ⟨place, binding, isBinding, same, -⟩⟩
      · refine Or.inl ((has_listed_iff properties name).mp ?_)
        rw [SortedMap.has, isNamed]
        rfl
      · exact Or.inr ⟨place, (List.getElem?_eq_some_iff.mp isBinding).1, same⟩
    · rintro (isListed | ⟨place, small, same⟩)
      · exact ⟨_, Or.inl ((find?_listed properties name).trans (if_pos isListed))⟩
      · exact ⟨_, Or.inr ⟨place, _, List.getElem?_eq_getElem small, same, rfl⟩⟩
  · intro item name isListed
    have named := (found name (fieldProvider name)).mpr
      (Or.inl ((find?_listed properties name).trans (if_pos isListed)))
    rw [resolve, named]
    rfl
  · intro item place binding isBinding
    have synthetic := (found _ binding.provider).mpr
      (Or.inr ⟨place, binding, isBinding, rfl, rfl⟩)
    rw [resolve, synthetic]
    rfl
  · intro place isListed
    have free := not_has_syntheticName (listed properties) place
    rw [(has_listed_iff properties _).mpr isListed] at free
    cases free

/-- A compiled template follows the forest that its source lays out, and its bindings say what the
listed fields and those bound along the forest hold. -/
theorem exists_outline {source : Text} {request : Request}
    {compiled : CompiledTemplate Json LogRecord}
    (success : compileMarkup source request = .ok compiled) :
    ∃ forest segments, LaysOut source forest ∧ Outlines 0 forest segments ∧
      compiled.template = numbered (listed request.properties) 0 0 segments ++ ['\n'] ∧
        Resolves request.properties segments compiled.bindings := by
  obtain ⟨renderer, issue, prepared, rendered, rfl⟩ := compileMarkup_cases success
  obtain ⟨forest, markup, base, -, laysOut, carries, -, applied, rfl⟩ := prepare_cases prepared
  have fresh : (equipped request base).kept = none := applied.kept
  obtain ⟨sound, written, registry, finished, records⟩ :=
    compile_eq_ok (compilation_of_render fresh rendered)
  refine ⟨forest, _, laysOut, ?_, written, finished ▸ resolves_of_records records⟩
  have roots : (equipped request base).roots = markup.roots := applied.roots
  have bounded := fun stop member => (sound stop member).isBounded
  unfold Document.tour at bounded ⊢
  rw [roots] at bounded ⊢
  exact outlines_skeleton applied.metadata applied.agrees carries (fun _ _ _ => rfl) _ _ 0 true
    bounded _

/-! ## The lines -/

theorem compileSource_cases {read : FileReader} {source name output : Text} {request : Request}
    (asked : request.items = some name) (success : compileSource read source request = .ok output) :
    ∃ content value compiled, read name = .ok content ∧ Json.read? content = some value ∧
      compileMarkup source request = .ok compiled ∧
        output = compiled.template ++ (itemsOf value).flatMap (itemLine compiled.bindings) := by
  rw [compileSource] at success
  split at success
  · cases success
  · rename_i compiled isCompiled
    rw [asked] at success
    dsimp only at success
    rw [readItems, readNamed] at success
    cases content : read name with
    | error fault =>
      rw [content] at success
      cases success
    | ok text =>
      rw [content] at success
      dsimp only at success
      cases value : Json.read? text with
      | none =>
        rw [value] at success
        cases success
      | some json =>
        rw [value] at success
        exact ⟨text, json, compiled, rfl, value, isCompiled, (Except.ok.inj success).symm⟩

theorem compileSource_template {read : FileReader} {source output : Text} {request : Request}
    (success : compileSource read source request = .ok output) :
    ∃ compiled, compileMarkup source request = .ok compiled ∧ compiled.template <+: output := by
  rw [compileSource] at success
  split at success
  · cases success
  · rename_i compiled isCompiled
    refine ⟨compiled, isCompiled, ?_⟩
    split at success
    · rw [Except.ok.inj success]
    · split at success
      · cases success
      · rw [← Except.ok.inj success]
        exact List.prefix_append _ _

/-- The output begins with what the renderer of the source compiles to, with what is asked for. -/
theorem compilation_of_compileSource {read : FileReader} {source output : Text} {request : Request}
    {markup : Markup} (parsed : Markup.parse source = .ok markup)
    {base : Renderer Json LogRecord} (rendered : markup.renderer id = .ok base)
    (success : compileSource read source request = .ok output) :
    ∃ compiled, (equipped request base).compilation.outcome = .ok compiled ∧
      compiled.template <+: output := by
  obtain ⟨compiled, isCompiled, begins⟩ := compileSource_template success
  obtain ⟨renderer, issue, prepared, isRendered, rfl⟩ := compileMarkup_cases isCompiled
  obtain ⟨forest, own, blank, isParsed, -, -, isBase, applied, rfl⟩ := prepare_cases prepared
  obtain rfl := Except.ok.inj (parsed.symm.trans isParsed)
  obtain rfl := Except.ok.inj (rendered.symm.trans isBase)
  have fresh : (equipped request base).kept = none := applied.kept
  exact ⟨issue.compiled, compilation_of_render fresh isRendered, begins⟩

theorem compileSource_congr {read : FileReader} {source output : Text} {request : Request}
    (success : compileSource read source request = .ok output) {others : List Text}
    (same : ∀ name, name ∈ others ↔ name ∈ request.properties) :
    compileSource read source { request with properties := others } = .ok output := by
  rw [compileSource] at success
  split at success
  · cases success
  · rename_i compiled isCompiled
    rw [compileSource, compileMarkup_congr isCompiled same]
    exact success

theorem field_eq_null {name : Text} {item : Json}
    (absent : ∀ fields, item = .object fields → name ∉ Entries.keys fields) :
    Json.field name item = .null := by
  cases item with
  | object fields =>
    have missing := (Entries.lookup_eq_none_iff name fields).mpr (absent fields rfl)
    rw [Json.field, missing]
    rfl
  | _ => rfl

/-- How items flow into the output: the template follows the forest of the source, and there is one
line for each item, whatever the order in which the fields are listed. -/
structure Flows (read : FileReader) (source : Text) (request : Request) (output : Text)
    (value : Json) (forest : List Declared) (segments : List (Segment Json LogRecord))
    (compiled : CompiledTemplate Json LogRecord) : Prop where
  laysOut : LaysOut source forest
  isCompiled : compileMarkup source request = .ok compiled
  outlines : Outlines 0 forest segments
  numbers : compiled.template = numbered (listed request.properties) 0 0 segments ++ ['\n']
  resolves : Resolves request.properties segments compiled.bindings
  lines : output = compiled.template ++ (itemsOf value).flatMap fun item =>
    (Json.ofMap (compiled.bindings.resolve item)).compact ++ ['\n']
  unbroken : ∀ item, '\n' ∉ (Json.ofMap (compiled.bindings.resolve item)).compact
  absent : ∀ name item, (∀ fields, item = .object fields → name ∉ Entries.keys fields) →
    Json.field name item = .null
  unordered : ∀ others : List Text, (∀ name, name ∈ others ↔ name ∈ request.properties) →
    compileSource read source { request with properties := others } = .ok output

theorem items_flow {read : FileReader} {source name output : Text} {request : Request}
    (asked : request.items = some name) (success : compileSource read source request = .ok output) :
    ∃ content value forest segments compiled, read name = .ok content ∧
      Json.read? content = some value ∧
        Flows read source request output value forest segments compiled := by
  obtain ⟨content, value, compiled, isRead, isValue, isCompiled, lines⟩ :=
    compileSource_cases asked success
  obtain ⟨forest, segments, laysOut, outlines, numbers, resolves⟩ := exists_outline isCompiled
  refine ⟨content, value, forest, segments, compiled, isRead, isValue,
    { laysOut := laysOut
      isCompiled := isCompiled
      outlines := outlines
      numbers := numbers
      resolves := resolves
      lines := lines
      unbroken := ?_
      absent := ?_
      unordered := ?_ }⟩
  · intro item
    exact Json.lineBreak_not_mem_compact _
  · intro name item
    exact field_eq_null
  · intro others same
    exact compileSource_congr success same

/-- The paragraph binds one name twice, and its other binding would get a name that is listed. -/
def cardSource : Text :=
  "<p :a=\x27f\x27 :.b=\x27g\x27 :a=\x27h\x27><button :a=\x27f\x27/></p>".toList

def cardRequest : Request :=
  ⟨["property0".toList, "t".toList, "property0".toList], some "rows".toList, true⟩

def cardFiles : FileReader := fun name =>
  if name = "rows".toList then
    .ok "[\x7b\x22h\x22: \x22u\x22, \x22f\x22: null, \x22property0\x22: true\x7d, 7]".toList
  else .error .notFound

def cardOutput : Text :=
  "\n  <p a=$\x7bitem.property1\x7d .b=$\x7bitem.property2\x7d>\n".toList ++
    "    <button a=$\x7bitem.property3\x7d @click=$\x7b()=>function0()\x7d></button>\n".toList ++
    "  </p>\n".toList ++
    "\x7b\x22property0\x22:true,\x22property1\x22:\x22u\x22,".toList ++
    "\x22property2\x22:null,\x22property3\x22:null,\x22t\x22:null\x7d\n".toList ++
    "\x7b\x22property0\x22:null,\x22property1\x22:null,".toList ++
    "\x22property2\x22:null,\x22property3\x22:null,\x22t\x22:null\x7d\n".toList

theorem card_items_flow :
    cardRequest.items = some "rows".toList ∧
      compileSource cardFiles cardSource cardRequest = .ok cardOutput ∧
        ∃ content value forest segments compiled, cardFiles "rows".toList = .ok content ∧
          Json.read? content = some value ∧
            Flows cardFiles cardSource cardRequest cardOutput value forest segments compiled := by
  have computed : (compileSource cardFiles cardSource cardRequest).toOption.any
      (fun output => output = cardOutput) = true := by
    decide +kernel
  obtain ⟨output, success, same⟩ := exists_ok_of_any computed
  obtain rfl := of_decide_eq_true same
  exact ⟨rfl, success, items_flow rfl success⟩

end TreeTemplate.Command
