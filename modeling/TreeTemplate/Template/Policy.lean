import TreeTemplate.Template.Metadata

/-!
# Activation policies

A policy gives every element of some kind a listener for its primary event. It may look at the
whole document. A listener that the caller attached, or that an earlier policy gives, goes before
it.
-/
set_option autoImplicit false

namespace TreeTemplate

/-- Decides which elements receive a listener, and which one. -/
structure ActivationPolicy (ι ω : Type) where
  event : Text
  appliesTo : Document → NodeId → Bool
  listener : NodeId → Listener ι ω

/-- Whether two tags are equal when ASCII letters are taken without their case. -/
def sameTag (left right : Text) : Bool :=
  left.map Char.toLower = right.map Char.toLower

namespace ActivationPolicy

variable {ι ω : Type}

/-- The policy for the elements with a tag. The listener has no arguments. -/
def forTag (tag event : Text) (forward : NodeId → ι → ω) : ActivationPolicy ι ω where
  event := event
  appliesTo document id := (document.tag? id).any fun actual => sameTag actual tag
  listener id := ⟨fun item _ => forward id item, none⟩

/-- The listeners that policies give to an element, in their order, where the events of `taken` are
served already. -/
def synthesize (document : Document) (id : NodeId) :
    List (ActivationPolicy ι ω) → List Text → Entries Text (Listener ι ω)
  | [], _ => []
  | policy :: rest, taken =>
    if policy.appliesTo document id && !taken.contains policy.event then
      (policy.event, policy.listener id) :: synthesize document id rest (policy.event :: taken)
    else synthesize document id rest taken

end ActivationPolicy

end TreeTemplate
