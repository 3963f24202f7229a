import TreeTemplate.Document.Blueprint
import TreeTemplate.Proofs.Template.Activation
import TreeTemplate.Proofs.Template.Obstacles
import TreeTemplate.Proofs.Template.Occurrences
import TreeTemplate.Proofs.Template.Warnings

/-!
# What a compile reports

The records of a compile can be read off its walk: at each element where the mode changes, for each
value whose placeholders cannot be kept, for each listener that a policy gives, and once at the end of
a compile that succeeds. So what is not reported did not happen: without a warning all placeholders
are kept, and the functions are those of the caller's listeners and of the reported ones.
-/
set_option autoImplicit false

namespace TreeTemplate

open Placeholder

variable {ι ω : Type}

namespace Surroundings
variable (surroundings : Surroundings ι ω) (document : Document)

/-- The values of an element, in interpolating mode, whose placeholders are to be kept: of what no
binding replaces, the attributes that hold placeholders and the strings before the first null. -/
def interpolated (occurrence : Occurrence) : List Interpolated :=
  let metadata := surroundings.metadata.ofNode occurrence.id
  if nearestMode surroundings.metadata.interpolation occurrence.trail then
    attributeContents ((document.attributes occurrence.id).filter fun pair =>
        pair.1 ∉ metadata.attributes.keys) ++
      propertyContents ((document.properties occurrence.id).filter fun pair =>
        pair.1 ∉ metadata.properties.keys)
  else []

def reportsAt (seen : Document) (occurrence : Occurrence) : List LogRecord :=
  let modes := surroundings.metadata.interpolation
  let id := occurrence.id
  match document.element? id with
  | none => []
  | some element =>
    let mode := nearestMode modes occurrence.trail
    (if mode = nearestMode modes occurrence.outer then [] else [.modeChanged element.tag id mode]) ++
      warnings (surroundings.interpolated document occurrence) ++
      if (document.fault? surroundings.metadata id).isNone then
        (surroundings.given seen id).map fun listener => .synthesized id listener.1
      else []

/-- What a compile reports at occurrences, one after the other. The policies see the document in which
the elements that were visited, down to the one in question, have lost what a binding replaces. -/
def reports (earlier : List Occurrence) : List Occurrence → List LogRecord
  | [] => []
  | occurrence :: rest =>
    let visited := earlier ++ [occurrence]
    surroundings.reportsAt document
        (document.dropAll surroundings.metadata (visited.map Occurrence.id)) occurrence ++
      reports visited rest

theorem synthesized_eq_given (id : NodeId) :
    surroundings.synthesized document id = surroundings.given document id :=
  List.append_cancel_left (listens_listenersAt surroundings document id).parts

/-- What a stop reports is what is to be reported at its occurrence. -/
theorem records_stopAt (here : Document) (registry : Registry ι ω) (occurrence : Occurrence) :
    ((document.stopAt surroundings.metadata.interpolation occurrence).emit surroundings here
        registry).records = surroundings.reportsAt document here occurrence := by
  rw [Document.stopAt, reportsAt, Document.element?]
  cases found : document.node? occurrence.id with
  | none => rfl
  | some node =>
    cases node with
    | text content => rfl
    | element element =>
      let metadata := surroundings.metadata.ofNode occurrence.id
      let mode := nearestMode surroundings.metadata.interpolation occurrence.trail
      have fault := writeProperties_withoutBound metadata element mode
      have faultAt : document.fault? surroundings.metadata occurrence.id =
          element.fault? metadata := by
        rw [Document.fault?, found]
      have contents : (writeAttributes mode (element.withoutBound metadata).attributes).records ++
          (writeProperties mode (element.withoutBound metadata).properties).1.records =
            warnings (surroundings.interpolated document occurrence) := by
        rw [records_writeAttributes, records_writeProperties, element.attributes_withoutBound,
          element.properties_withoutBound, interpolated, Document.attributes, Document.properties,
          Document.element?, found]
        dsimp only [Option.bind_some, Node.element?, mode]
        split
        · exact (warnings_append _ _).symm
        · rfl
      simp only [Option.bind_some, Node.element?, Stop.emit]
      rw [faultAt, ← fault, ← contents, ← synthesized_eq_given, writeStart]
      dsimp only
      split
      · rename_i reason faulty
        rw [faulty]
        simp [mode, metadata]
      · rename_i sound
        rw [sound]
        simp [mode, metadata]

theorem fault_stopAt (here : Document) (registry : Registry ι ω) (occurrence : Occurrence) :
    ((document.stopAt surroundings.metadata.interpolation occurrence).emit surroundings here
        registry).fault = document.fault? surroundings.metadata occurrence.id := by
  rw [emit_fault, visits_stopAt, findSome?_visitsAt]

/-- A stop leaves the document as it is if it does not enter an element, which then has nothing to
lose. -/
theorem strip_stopAt (ids : List NodeId) (occurrence : Occurrence) :
    (document.stopAt surroundings.metadata.interpolation occurrence).strip surroundings.metadata
        (document.dropAll surroundings.metadata ids) =
      document.dropAll surroundings.metadata (ids ++ [occurrence.id]) := by
  have last : document.dropAll surroundings.metadata (ids ++ [occurrence.id]) =
      (document.dropAll surroundings.metadata ids).dropBound surroundings.metadata occurrence.id :=
    List.foldl_concat ..
  have here : (document.dropAll surroundings.metadata ids).node? occurrence.id = _ :=
    node?_dropAll document ids occurrence.id
  rw [last, Document.stopAt]
  cases found : document.node? occurrence.id with
  | none =>
    rw [found, Option.map_none, ite_self] at here
    refine ((document.dropAll surroundings.metadata ids).onElement_eq_self ?_).symm
    intro node isNode
    rw [here] at isNode
    cases isNode
  | some node =>
    cases node with
    | element element => rfl
    | text content =>
      rw [found] at here
      have kept : (document.dropAll surroundings.metadata ids).node? occurrence.id =
          some (.text content) := by
        rw [here]
        split <;> rfl
      refine ((document.dropAll surroundings.metadata ids).onElement_eq_self ?_).symm
      intro node isNode
      rw [kept] at isNode
      obtain rfl := Option.some.inj isNode
      rfl

/-- Behind what was visited before, the stops at occurrences report what is to be reported up to the
first fault. -/
theorem exists_visited_reports (earlier occurrences : List Occurrence) (registry : Registry ι ω) :
    ∃ visited, visited <+: occurrences ∧
      document.Visited surroundings.metadata (occurrences.map Occurrence.id)
        (visited.map Occurrence.id)
        ((occurrences.map Occurrence.id).findSome? (document.fault? surroundings.metadata)) ∧
      (transcribe surroundings
          (document.dropAll surroundings.metadata (earlier.map Occurrence.id)) registry
          (occurrences.map (document.stopAt surroundings.metadata.interpolation))).records =
        surroundings.reports document earlier visited := by
  induction occurrences generalizing earlier registry with
  | nil => exact ⟨[], List.prefix_rfl, .all (List.forall_mem_nil _), rfl⟩
  | cons occurrence rest ih =>
    have stripped := surroundings.strip_stopAt document (earlier.map Occurrence.id) occurrence
    have visited : earlier.map Occurrence.id ++ [occurrence.id] =
        (earlier ++ [occurrence]).map Occurrence.id := by
      rw [List.map_append, List.map_singleton]
    rw [visited] at stripped
    let here := document.dropAll surroundings.metadata ((earlier ++ [occurrence]).map Occurrence.id)
    have records := surroundings.records_stopAt document here registry occurrence
    have fault := surroundings.fault_stopAt document here registry occurrence
    rw [List.map_cons, List.map_cons, List.findSome?_cons, transcribe]
    dsimp only
    rw [stripped, fault]
    cases faulty : document.fault? surroundings.metadata occurrence.id with
    | some reason =>
      refine ⟨[occurrence], List.cons_prefix_cons.mpr ⟨rfl, List.nil_prefix⟩, ?_, ?_⟩
      · exact Document.Visited.upTo (List.forall_mem_nil _) faulty
      · rw [reports, reports, List.append_nil]
        exact records
    | none =>
      obtain ⟨later, isPrefix, visits, reported⟩ := ih (earlier ++ [occurrence])
        ((document.stopAt surroundings.metadata.interpolation occurrence).emit surroundings here
          registry).registry
      refine ⟨occurrence :: later, List.cons_prefix_cons.mpr ⟨rfl, isPrefix⟩, ?_, ?_⟩
      · exact visits.cons faulty
      · rw [reports]
        exact congrArg₂ (· ++ ·) records reported

end Surroundings

/-- The ends of elements report nothing. -/
theorem records_transcribe_filter (surroundings : Surroundings ι ω) (document : Document)
    (registry : Registry ι ω) (tour : List Stop) :
    (transcribe surroundings document registry (tour.filter fun stop => !stop.isLeave)).records =
      (transcribe surroundings document registry tour).records := by
  induction tour generalizing document registry with
  | nil => rfl
  | cons stop rest ih =>
    cases ends : stop.isLeave with
    | true =>
      rw [List.filter_cons_of_neg (by simp [ends]), ih]
      cases stop with
      | leave depth tag childless => rfl
      | _ => cases ends
    | false =>
      rw [List.filter_cons_of_pos (by simp [ends]), transcribe, transcribe]
      dsimp only
      split
      · rfl
      · dsimp only
        rw [ih]

def LogRecord.isSynthesized : LogRecord → Bool
  | .synthesized _ _ => true
  | _ => false

theorem countP_warnings (contents : List Interpolated) :
    (warnings contents).countP LogRecord.isSynthesized = 0 := by
  refine List.countP_eq_zero.mpr ?_
  intro record member
  obtain ⟨content, -, rfl⟩ := List.mem_map.mp member
  exact Bool.false_ne_true

/-- An element has the caller's listeners and those that are reported. -/
theorem length_listenersAt (surroundings : Surroundings ι ω) (document : Document)
    (registry : Registry ι ω) (depth : Nat) (id : NodeId) (element : Element)
    (inherited interpolate : Bool)
    (complete : (writeStart surroundings document registry depth id element inherited
      interpolate).fault = none) :
    (surroundings.listenersAt document id).length =
      (surroundings.metadata.ofNode id).listeners.size +
        (writeStart surroundings document registry depth id element inherited
          interpolate).records.countP LogRecord.isSynthesized := by
  rw [writeStart_fault] at complete
  have modeRecords : (if interpolate = inherited then []
      else [LogRecord.modeChanged element.tag id interpolate]).countP LogRecord.isSynthesized = 0 := by
    split <;> rfl
  have quiet (contents : List Interpolated) : (if interpolate then warnings contents else []).countP
      LogRecord.isSynthesized = 0 := by
    split
    · exact countP_warnings contents
    · rfl
  have all (added : Entries Text (Listener ι ω)) :
      (added.map fun listener => LogRecord.synthesized id listener.1).countP
        LogRecord.isSynthesized = added.length := by
    rw [List.countP_map]
    exact List.countP_eq_length.mpr fun _ _ => rfl
  rw [Surroundings.listenersAt, List.length_append, writeStart]
  dsimp only
  rw [complete]
  dsimp only
  rw [List.countP_append, List.countP_append, List.countP_append, records_writeAttributes,
    records_writeProperties, modeRecords, quiet, quiet, all]
  simp [SortedMap.size]

theorem length_listenersOf_segments (surroundings : Surroundings ι ω) (document : Document)
    (registry : Registry ι ω) (stop : Stop)
    (complete : (stop.emit surroundings document registry).fault = none) :
    (listenersOf (stop.segments surroundings document)).length =
      (stop.entered.map fun id => (surroundings.metadata.ofNode id).listeners.size).sum +
        (stop.emit surroundings document registry).records.countP LogRecord.isSynthesized := by
  cases stop with
  | text depth interpolate content =>
    rw [listenersOf_still _ (still_text surroundings document depth interpolate content)]
    rfl
  | enter depth id element inherited interpolate =>
    rw [Stop.segments, listenersOf_startSegments,
      length_listenersAt surroundings document registry depth id element inherited interpolate
        complete, Stop.entered, List.map_singleton, List.sum_singleton]
    rfl
  | leave depth tag childless => rfl
  | missing id => cases complete
  | endless id => cases complete

/-- The listeners of a tour are the caller's, element by element, and those that are reported. -/
theorem length_listenersOf_skeleton (surroundings : Surroundings ι ω) (document : Document)
    (registry : Registry ι ω) (tour : List Stop)
    (complete : (transcribe surroundings document registry tour).fault = none) :
    (listenersOf (skeleton surroundings document tour)).length =
      ((tour.flatMap Stop.entered).map fun id =>
        (surroundings.metadata.ofNode id).listeners.size).sum +
        (transcribe surroundings document registry tour).records.countP
          LogRecord.isSynthesized := by
  induction tour generalizing document registry with
  | nil => rfl
  | cons stop rest ih =>
    let stripped := stop.strip surroundings.metadata document
    cases faulty : (stop.emit surroundings stripped registry).fault with
    | some reason => simp [transcribe, faulty, stripped] at complete
    | none =>
      have own := length_listenersOf_segments surroundings stripped registry stop faulty
      simp only [transcribe, faulty, stripped] at complete ⊢
      have later := ih _ _ complete
      rw [skeleton, listenersOf_append, List.length_append, own, later, List.flatMap_cons,
        List.map_append, List.sum_append, List.countP_append]
      dsimp only [stripped]
      omega

/-- The values of an element whose placeholders are to be kept stand in what is written for it. -/
theorem infix_interpolated {surroundings : Surroundings ι ω} {document : Document}
    {occurrence : Occurrence} {content : Interpolated} {text : Text}
    (member : content ∈ surroundings.interpolated document occurrence)
    (emits : surroundings.Emits
      (document.stopAt surroundings.metadata.interpolation occurrence) text) :
    content.encoded.text <:+: text := by
  rw [Surroundings.interpolated, Document.attributes, Document.properties,
    Document.element?] at member
  have widened {part whole : Text} (inside : part <:+: whole) (behind : Text) :
      part <:+: whole ++ behind := inside.trans (List.prefix_append _ _).isInfix
  split at member
  · rename_i mode
    cases found : document.node? occurrence.id with
    | none =>
      rw [found] at member
      cases member
    | some node =>
      cases node with
      | text content =>
        rw [found] at member
        cases member
      | element element =>
        rw [Document.stopAt, found] at emits
        dsimp only at emits
        rw [mode] at emits
        obtain ⟨complete, _, first, second, third, rfl⟩ := starts_of_emits emits
        rw [found] at member
        dsimp only [Option.bind_some, Node.element?, Option.map_some, Option.getD_some] at member
        rw [← Element.attributes_withoutBound, ← Element.properties_withoutBound] at member
        rcases List.mem_append.mp member with inAttribute | inProperty
        · refine (infix_writeAttributes inAttribute).trans ?_
          exact widened (widened (widened (widened (List.suffix_append _ _).isInfix _) _) _) _
        · refine (infix_writeProperties inProperty complete).trans ?_
          exact widened (widened (List.suffix_append _ _).isInfix _) _
  · cases member

theorem infix_of_writes {surroundings : Surroundings ι ω} {tour : List Stop} {text : Text}
    (writes : surroundings.Writes tour text) {stop : Stop} (member : stop ∈ tour) :
    ∃ own, surroundings.Emits stop own ∧ own <:+: text := by
  induction tour generalizing text with
  | nil => cases member
  | cons first rest ih =>
    obtain ⟨own, later, emits, writesLater, rfl⟩ := writes
    rcases List.mem_cons.mp member with rfl | behind
    · exact ⟨own, emits, (List.prefix_append _ _).isInfix⟩
    · obtain ⟨inner, emitsInner, inside⟩ := ih writesLater behind
      exact ⟨inner, emitsInner, inside.trans (List.suffix_append _ _).isInfix⟩

/-! ## The log -/

def Compilation.summary (compilation : Compilation ι ω) (roots : Nat) : List LogRecord :=
  match compilation.outcome with
  | .error _ => []
  | .ok compiled =>
    [.compiled roots compiled.template.utf8Size compiled.bindings.properties.size
      compiled.bindings.functions.size]

/-- The records of a compile, and what can be concluded from them, where the given occurrences were
visited. -/
structure Compilation.IsReported (surroundings : Surroundings ι ω) (document : Document)
    (roots : List NodeId) (visited : List Occurrence) (compilation : Compilation ι ω) : Prop where
  records : compilation.records =
    surroundings.reports document [] visited ++ compilation.summary roots.length
  summarized : (∃ record ∈ compilation.records, record.level = .debug) ↔
    ∃ compiled, compilation.outcome = .ok compiled
  /-- Without a warning the placeholders are kept, and stand so in the template. -/
  kept : (∀ record ∈ compilation.records, record.level ≠ .warn) →
    ∀ occurrence ∈ visited, ∀ content ∈ surroundings.interpolated document occurrence,
      IsKept content.opening content.closing content.value content.encoded.text ∧
        ∀ compiled, compilation.outcome = .ok compiled →
          content.encoded.text <:+: compiled.template
  functions : ∀ compiled, compilation.outcome = .ok compiled →
    compiled.bindings.functions.size =
      ((visited.filter fun occurrence => (document.element? occurrence.id).isSome).map
        fun occurrence => (surroundings.metadata.ofNode occurrence.id).listeners.size).sum +
        compilation.records.countP LogRecord.isSynthesized

theorem mem_reports {surroundings : Surroundings ι ω} {document : Document} {record : LogRecord}
    {earlier visited : List Occurrence}
    (member : record ∈ surroundings.reports document earlier visited) :
    ∃ seen, ∃ occurrence ∈ visited, record ∈ surroundings.reportsAt document seen occurrence := by
  induction visited generalizing earlier with
  | nil => cases member
  | cons occurrence rest ih =>
    rw [Surroundings.reports] at member
    rcases List.mem_append.mp member with own | later
    · exact ⟨_, occurrence, List.mem_cons_self, own⟩
    · obtain ⟨seen, other, isOther, inside⟩ := ih later
      exact ⟨seen, other, List.mem_cons_of_mem _ isOther, inside⟩

theorem warnings_subset_reports {surroundings : Surroundings ι ω} {document : Document}
    {visited : List Occurrence} {occurrence : Occurrence} (member : occurrence ∈ visited)
    (earlier : List Occurrence) :
    warnings (surroundings.interpolated document occurrence) ⊆
      surroundings.reports document earlier visited := by
  induction visited generalizing earlier with
  | nil => cases member
  | cons first rest ih =>
    intro record inside
    rw [Surroundings.reports]
    rcases List.mem_cons.mp member with rfl | behind
    · refine List.mem_append_left _ ?_
      rw [Surroundings.reportsAt]
      cases found : document.element? occurrence.id with
      | none =>
        rw [Surroundings.interpolated, Document.attributes, Document.properties, found] at inside
        simp [attributeContents, propertyContents, warnings] at inside
      | some element => exact List.mem_append_left _ (List.mem_append_right _ inside)
    · exact List.mem_append_right _ (ih behind _ inside)

theorem level_reports {surroundings : Surroundings ι ω} {document : Document} {record : LogRecord}
    {earlier visited : List Occurrence}
    (member : record ∈ surroundings.reports document earlier visited) : record.level ≠ .debug := by
  obtain ⟨seen, occurrence, -, inside⟩ := mem_reports member
  rw [Surroundings.reportsAt] at inside
  dsimp only at inside
  split at inside
  · cases inside
  · rcases List.mem_append.mp inside with before | isSynthesized
    · rcases List.mem_append.mp before with isMode | isWarning
      · split at isMode
        · cases isMode
        · rw [List.mem_singleton.mp isMode]
          exact LogLevel.noConfusion
      · obtain ⟨content, -, rfl⟩ := List.mem_map.mp isWarning
        exact LogLevel.noConfusion
    · split at isSynthesized
      · obtain ⟨listener, -, rfl⟩ := List.mem_map.mp isSynthesized
        exact LogLevel.noConfusion
      · cases isSynthesized

section Compiles
variable {surroundings : Surroundings ι ω} {document : Document} {roots : List NodeId}
  {named : SortedMap Text (Provider ι)}

theorem fault?_compile {occurrences : List Occurrence}
    (walks : document.Walks [] roots occurrences)
    (bounded : ∀ stop ∈ document.tour surroundings.metadata.interpolation roots, stop.IsBounded) :
    (compile surroundings document roots named).fault? =
      (occurrences.map Occurrence.id).findSome? (document.fault? surroundings.metadata) := by
  obtain ⟨found, -⟩ := compile_visits surroundings document roots named
  rwa [visits_of_bounded_tour walks.preorder bounded, findSome?_visits] at found

theorem fault?_eq_none_of_success {compilation : Compilation ι ω} {compiled : CompiledTemplate ι ω}
    (success : compilation.outcome = .ok compiled) : compilation.fault? = none :=
  (exists_outcome_iff compilation).mp ⟨compiled, success⟩

theorem records_compile : (compile surroundings document roots named).records =
    (transcribe surroundings document (Registry.ofNamed named)
      (document.tour surroundings.metadata.interpolation roots)).records ++
      (compile surroundings document roots named).summary roots.length := by
  rw [compile]
  dsimp only
  split
  · exact (List.append_nil _).symm
  · rfl

theorem fault_transcribe {compiled : CompiledTemplate ι ω}
    (success : (compile surroundings document roots named).outcome = .ok compiled) :
    (transcribe surroundings document (Registry.ofNamed named)
      (document.tour surroundings.metadata.interpolation roots)).fault = none := by
  rw [compile] at success
  dsimp only at success
  split at success
  · cases success
  · assumption

theorem countP_summary (compilation : Compilation ι ω) (count : Nat) :
    (compilation.summary count).countP LogRecord.isSynthesized = 0 := by
  rw [Compilation.summary]
  split <;> rfl

/-- The functions of a compile are those of the caller's listeners, at the elements of the walk, and
of the listeners that are reported. -/
theorem size_functions_compile {occurrences : List Occurrence}
    (walks : document.Walks [] roots occurrences) {compiled : CompiledTemplate ι ω}
    (success : (compile surroundings document roots named).outcome = .ok compiled) :
    compiled.bindings.functions.size =
      ((occurrences.filter fun occurrence => (document.element? occurrence.id).isSome).map
        fun occurrence => (surroundings.metadata.ofNode occurrence.id).listeners.size).sum +
        (compile surroundings document roots named).records.countP LogRecord.isSynthesized := by
  obtain ⟨sound, -, registry, finished, records⟩ := compile_eq_ok success
  have handlers := records.size_functions
  rw [List.length_map, length_listenersOf_skeleton surroundings document _ _
    (fault_transcribe success)] at handlers
  have visits : document.Visits roots (occurrences.map Occurrence.id) := by
    have complete := fault?_eq_none_of_success success
    rw [fault?_compile walks (fun stop member => (sound stop member).isBounded),
      List.findSome?_eq_none_iff] at complete
    exact walks.preorder.visits fun id member =>
      ((fault?_eq_none_iff_writable id).mp (complete id member)).1
  have entered := entered_of_sound_tour visits _ _ _ sound
  have elements : (occurrences.map Occurrence.id).filter (fun id => (document.element? id).isSome) =
      (occurrences.filter fun occurrence => (document.element? occurrence.id).isSome).map
        Occurrence.id := List.filter_map
  rw [finished, records_compile, List.countP_append, countP_summary, Nat.add_zero]
  refine handlers.trans ?_
  rw [Document.tour, entered, elements, List.map_map]
  rfl

/-- Only a compile that succeeds reports a summary. -/
theorem summarized_of_records {compilation : Compilation ι ω} {visited : List Occurrence}
    {count : Nat} (records : compilation.records =
      surroundings.reports document [] visited ++ compilation.summary count) :
    (∃ record ∈ compilation.records, record.level = .debug) ↔
      ∃ compiled, compilation.outcome = .ok compiled := by
  rw [records, Compilation.summary]
  cases compilation.outcome with
  | error reason =>
    refine iff_of_false ?_ (by simp)
    rintro ⟨record, member, isDebug⟩
    rw [List.append_nil] at member
    exact level_reports member isDebug
  | ok compiled => exact iff_of_true ⟨_, List.mem_append_right _ List.mem_cons_self, rfl⟩ ⟨_, rfl⟩

/-- A value that is not warned of was accepted. -/
theorem accepted_of_quiet {compilation : Compilation ι ω} {visited : List Occurrence} {count : Nat}
    (records : compilation.records =
      surroundings.reports document [] visited ++ compilation.summary count)
    (quiet : ∀ record ∈ compilation.records, record.level ≠ .warn) {occurrence : Occurrence}
    (isVisited : occurrence ∈ visited) {content : Interpolated}
    (member : content ∈ surroundings.interpolated document occurrence) :
    enclose? content.opening content.closing content.value ≠ none := by
  intro rejected
  have warned : LogRecord.unbalanced content.value ∈ compilation.records := by
    rw [records]
    refine List.mem_append_left _ (warnings_subset_reports isVisited [] ?_)
    refine List.mem_map.mpr ⟨content, List.mem_filter.mpr ⟨member, ?_⟩, rfl⟩
    rw [Interpolated.isRejected, rejected]
    rfl
  exact quiet _ warned rfl

/-- A value of a stop of the tour stands in the template as it was encoded. -/
theorem infix_template {occurrence : Occurrence} {content : Interpolated}
    (member : content ∈ surroundings.interpolated document occurrence)
    (passed : document.stopAt surroundings.metadata.interpolation occurrence ∈
      document.tour surroundings.metadata.interpolation roots) {compiled : CompiledTemplate ι ω}
    (success : (compile surroundings document roots named).outcome = .ok compiled) :
    content.encoded.text <:+: compiled.template := by
  obtain ⟨body, template, writes⟩ := compile_writes success
  obtain ⟨own, emits, inside⟩ := infix_of_writes writes passed
  rw [template]
  exact ((infix_interpolated member emits).trans inside).trans (List.prefix_append _ _).isInfix

/-- What a compile over a bounded tour reports. -/
theorem exists_isReported
    (bounded : ∀ stop ∈ document.tour surroundings.metadata.interpolation roots, stop.IsBounded) :
    let first := compile surroundings document roots named
    ∃ occurrences visited, document.Walks [] roots occurrences ∧ visited <+: occurrences ∧
      document.Visited surroundings.metadata (occurrences.map Occurrence.id)
        (visited.map Occurrence.id) first.fault? ∧
      first.IsReported surroundings document roots visited := by
  intro first
  obtain ⟨identities, preorder⟩ := preorder_of_bounded_tour _ _ _ _ bounded
  obtain ⟨occurrences, walks⟩ := Document.exists_walks preorder []
  have filtered : (document.tour surroundings.metadata.interpolation roots).filter
      (fun stop => !stop.isLeave) =
        occurrences.map (document.stopAt surroundings.metadata.interpolation) :=
    filter_bounded_tour walks document.size bounded
  obtain ⟨visited, isPrefix, visits, reported⟩ := surroundings.exists_visited_reports document []
    occurrences (Registry.ofNamed named)
  have fault : first.fault? = _ := fault?_compile walks bounded
  rw [← filtered] at reported
  have records : first.records =
      surroundings.reports document [] visited ++ first.summary roots.length := by
    rw [← reported]
    exact records_compile.trans
      (congrArg (· ++ _) (records_transcribe_filter surroundings document _ _).symm)
  rw [← fault] at visits
  refine ⟨occurrences, visited, walks, isPrefix, visits, records, summarized_of_records records,
    ?_, ?_⟩
  · intro quiet occurrence isVisited content member
    have passed : document.stopAt surroundings.metadata.interpolation occurrence ∈
        document.tour surroundings.metadata.interpolation roots := by
      refine (List.mem_filter.mp (?_ : _ ∈ List.filter (fun stop => !stop.isLeave) _)).1
      rw [filtered]
      exact List.mem_map_of_mem (isPrefix.subset isVisited)
    have accepted := accepted_of_quiet records quiet isVisited member
    exact ⟨(isKept_encodeExpression accepted).1, fun _ => infix_template member passed⟩
  · intro compiled success
    have whole : visited = occurrences := by
      rw [fault?_eq_none_of_success success] at visits
      exact isPrefix.eq_of_length (by simpa using congrArg List.length visits.eq_of_sound)
    rw [whole]
    exact size_functions_compile walks success

end Compiles

/-- A first compile reports what it does at the occurrences that it visits, up to the first fault, and
its numbers if it succeeds. A compiler that was used reports nothing, and neither does a renderer that
answers from the result it kept. -/
theorem Compiler.run_reports (surroundings : Surroundings ι ω) (document : Document)
    (roots : List NodeId) (named : SortedMap Text (Provider ι))
    (acyclic : document.AcyclicBelow roots) :
    let first := (fresh surroundings document).run roots named
    (∃ occurrences visited, document.Walks [] roots occurrences ∧ visited <+: occurrences ∧
        document.Visited surroundings.metadata (occurrences.map Occurrence.id)
          (visited.map Occurrence.id) first.1.fault? ∧
        first.1.IsReported surroundings document roots visited) ∧
      (∀ others names, (first.2.run others names).1.outcome = .error .alreadyCompiled ∧
        (first.2.run others names).1.records = []) ∧
      ∀ (renderer : Renderer ι ω) (issue : Issue ι ω), renderer.kept = some issue →
        renderer.render.2.2 = [] ∧ renderer.templateText.2.2 = [] := by
  intro first
  refine ⟨?_, fun _ _ => ⟨rfl, rfl⟩, ?_⟩
  · exact exists_isReported (document.bounded_tour acyclic surroundings.metadata.interpolation)
  · intro renderer issue kept
    rw [Renderer.render, Renderer.templateText, kept]
    exact ⟨rfl, rfl⟩

/-- A form whose title opens a placeholder and does not close it, around a preformatted part with such
a title of its own and a button. -/
def untidyForm : Document :=
  (Document.empty.build (.element "form".toList [("title".toList, "$\x7b".toList)] []
    [.element "pre".toList [("title".toList, "$\x7b".toList)] [] [],
      .element "button".toList [] [("label".toList, .string "$\x7bx\x7d".toList)] []])).2

def formMetadata : Metadata Json Text :=
  let form : NodeMetadata Json Text :=
    { interpolation := .inherit
      attributes := SortedMap.empty
      properties := SortedMap.empty
      listeners := SortedMap.empty.insert "submit".toList ⟨fun _ _ => "sent".toList, none⟩ }
  (SortedMap.empty.insert 0 form).insert 1 { NodeMetadata.bare with interpolation := .disabled }

def formSurroundings : Surroundings Json Text :=
  ⟨formMetadata, [.forTag "button".toList "click".toList fun _ _ => "pressed".toList]⟩

/-- The form is reported for its title, the preformatted part for its mode alone, and the button for
the listener that it is given. The functions are that one and the caller's. -/
theorem untidy_form_reports :
    let first := (Compiler.fresh formSurroundings untidyForm).run [0] SortedMap.empty
    untidyForm.AcyclicBelow [0] ∧
      (∃ occurrences, untidyForm.Walks [] [0] occurrences ∧
        first.1.IsReported formSurroundings untidyForm [0] occurrences) ∧
      first.1.records.map LogRecord.message =
        ["unbalanced placeholder in \x22$\x7b\x22, emitting it as a literal".toList,
          "<pre> #1: interpolation disabled".toList, "#2: synthesized 'click' listener".toList,
          "compiled 1 root(s) into 153 bytes, 0 properties, 2 functions".toList] := by
  intro first
  have forward : ∀ parent < untidyForm.size, ∀ child ∈ untidyForm.children parent,
      parent < child := by
    decide +kernel
  have acyclic := Document.acyclicBelow_of_forward [0] forward
  have succeeds : first.1.fault? = none := by decide +kernel
  obtain ⟨⟨occurrences, visited, walks, isPrefix, visits, reported⟩, -, -⟩ :=
    Compiler.run_reports formSurroundings untidyForm [0] SortedMap.empty acyclic
  rw [succeeds] at visits
  obtain rfl : visited = occurrences :=
    isPrefix.eq_of_length (by simpa using congrArg List.length visits.eq_of_sound)
  exact ⟨acyclic, ⟨visited, walks, reported⟩, by decide +kernel⟩

end TreeTemplate
