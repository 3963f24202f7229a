import TreeTemplate.Template.Metadata

/-!
# Drafts

A draft is a document together with what is attached to its nodes. Its edits are addressed to one
node each. A literal value and a dynamic binding of one name exclude each other: setting one drops
the other.
-/
set_option autoImplicit false

namespace TreeTemplate

/-- A document and the metadata of its nodes. -/
structure Draft (ι ω : Type) where
  document : Document
  metadata : Metadata ι ω

/-- A change to one node. -/
inductive NodeEdit (ι ω : Type) where
  | interpolate (mode : Interpolation)
  | setAttribute (name value : Text)
  /-- Sets an empty literal attribute, or removes it. -/
  | setFlag (name : Text) (present : Bool)
  /-- Binds an attribute to a value computed for each item. -/
  | bindAttribute (name : Text) (provider : Provider ι)
  | setProperty (name : Text) (value : PropertyValue)
  | bindProperty (name : Text) (provider : Provider ι)
  | listen (event : Text) (listener : Listener ι ω)

namespace Draft

variable {ι ω : Type}

def ofDocument (document : Document) : Draft ι ω :=
  ⟨document, SortedMap.empty⟩

def attach (draft : Draft ι ω) (id : NodeId) (metadata : NodeMetadata ι ω) : Draft ι ω :=
  { draft with metadata := draft.metadata.insert id metadata }

/-- The draft in which the node has an entry for metadata, bare if it had none. -/
def touch (draft : Draft ι ω) (id : NodeId) : Draft ι ω :=
  draft.attach id (draft.metadata.ofNode id)

def withDocument (draft : Draft ι ω) (document : Document) : Draft ι ω :=
  { draft with document := document }

/-- Makes one edit. The kind of the node is not checked: what is attached to a text is ignored when
the draft is compiled. An edit that fails only touches the node. -/
def edit (draft : Draft ι ω) (id : NodeId) : NodeEdit ι ω → Except TemplateError Unit × Draft ι ω
  | .interpolate mode =>
    (.ok (), draft.attach id { draft.metadata.ofNode id with interpolation := mode })
  | .setAttribute name value =>
    let metadata := draft.metadata.ofNode id
    (.ok (), (draft.attach id { metadata with
        attributes := metadata.attributes.erase name }).withDocument
      (draft.document.setAttribute id name value))
  | .setFlag name present =>
    let metadata := draft.metadata.ofNode id
    (.ok (), (draft.attach id { metadata with
        attributes := metadata.attributes.erase name }).withDocument
      (draft.document.setFlag id name present))
  | .bindAttribute name provider =>
    let metadata := draft.metadata.ofNode id
    (.ok (), (draft.attach id { metadata with
        attributes := metadata.attributes.insert name provider }).withDocument
      (draft.document.removeAttribute id name))
  | .setProperty name value =>
    let metadata := draft.metadata.ofNode id
    (.ok (), (draft.attach id { metadata with
        properties := metadata.properties.erase name }).withDocument
      (draft.document.setProperty id name value))
  | .bindProperty name provider =>
    let metadata := draft.metadata.ofNode id
    (.ok (), (draft.attach id { metadata with
        properties := metadata.properties.insert name provider }).withDocument
      (draft.document.removeProperty id name))
  | .listen event listener =>
    match (draft.metadata.ofNode id).addListener event listener with
    | .ok metadata => (.ok (), draft.attach id metadata)
    | .error reason => (.error reason, draft.touch id)

/-- Makes several edits of one node, going on after one that fails. Returns the outcome of each. The
node is touched even if there are none. -/
def editAll (draft : Draft ι ω) (id : NodeId) :
    List (NodeEdit ι ω) → List (Except TemplateError Unit) × Draft ι ω
  | [] => ([], draft.touch id)
  | first :: rest =>
    let (outcome, edited) := draft.edit id first
    let (outcomes, complete) := edited.editAll id rest
    (outcome :: outcomes, complete)

end Draft

end TreeTemplate
