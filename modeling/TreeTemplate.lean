import TreeTemplate.Main
import TreeTemplate.Proofs.Placeholder.Acceptance
import TreeTemplate.Proofs.Binding.Allocation
import TreeTemplate.Proofs.Document.Building
import TreeTemplate.Proofs.Document.History
import TreeTemplate.Proofs.Document.Materializing
import TreeTemplate.Proofs.Json.OneLine
import TreeTemplate.Proofs.Number.Reading
import TreeTemplate.Proofs.Template.Activation
import TreeTemplate.Proofs.Template.AllOrNothing
import TreeTemplate.Proofs.Template.Cache
import TreeTemplate.Proofs.Template.Closed
import TreeTemplate.Proofs.Template.Composite
import TreeTemplate.Proofs.Template.Delimited
import TreeTemplate.Proofs.Template.Disabled
import TreeTemplate.Proofs.Template.Exclusion
import TreeTemplate.Proofs.Template.Obstacles
import TreeTemplate.Proofs.Template.Overrides
import TreeTemplate.Proofs.Template.Registration
import TreeTemplate.Proofs.Template.Reporting
import TreeTemplate.Proofs.Template.SwitchedOff
import TreeTemplate.Proofs.Template.Targeting
import TreeTemplate.Proofs.Markup.Acceptance
import TreeTemplate.Proofs.Markup.Agreement
import TreeTemplate.Proofs.Markup.Applying
import TreeTemplate.Proofs.Markup.Carrying
import TreeTemplate.Proofs.Markup.Decoding
import TreeTemplate.Proofs.Markup.Farthest
import TreeTemplate.Proofs.Markup.Forest
import TreeTemplate.Proofs.Markup.Interpretation
import TreeTemplate.Proofs.Markup.Layout
import TreeTemplate.Proofs.Markup.Mistakes
import TreeTemplate.Proofs.Markup.OnePass
import TreeTemplate.Proofs.Markup.Outline
import TreeTemplate.Proofs.Markup.Plain
import TreeTemplate.Proofs.Markup.Rendering
import TreeTemplate.Proofs.Markup.Reordering
import TreeTemplate.Proofs.Markup.RoundTrip
import TreeTemplate.Proofs.Markup.Splitting
import TreeTemplate.Proofs.Command.Lines
