import AgentContent.AgentId.Content
import AgentContent.Config.Read
import AgentContent.Content.Equality
import AgentContent.Content.Display
import AgentContent.Content.Json
import AgentContent.Content.Node
import AgentContent.Conversion.AppClass
import AgentContent.Inspect.Run
import AgentContent.Json.Read
import AgentContent.Json.Write
import AgentContent.Main
import AgentContent.Manager.Basic
import AgentContent.Message.Json
import AgentContent.Ontology.Validation
import AgentContent.Schema.Basic
import AgentContent.Template.Create
import AgentContent.Template.Edit
import AgentContent.Vocabulary.Basic
import AgentContent.Proofs.Sl.Date
import AgentContent.Proofs.Text.Base64
import AgentContent.Proofs.Number.Rounding
import AgentContent.Proofs.Number.Shortest
import AgentContent.Proofs.Sl.Form
import AgentContent.Proofs.Sl.Token
import AgentContent.Proofs.Number.Positional
import AgentContent.Proofs.Sl.Word
import AgentContent.Proofs.Content.Slots
import AgentContent.Proofs.Ontology.Slots
import AgentContent.Proofs.Sl.Yields
import AgentContent.Proofs.Content.Nodes
import AgentContent.Proofs.Sl.Determined
import AgentContent.Proofs.Sl.Encode
import AgentContent.Proofs.Sl.Message
import AgentContent.Proofs.Sl.RoundTrip
import AgentContent.Proofs.Sl.Decode
import AgentContent.Proofs.Json.Read
import AgentContent.Proofs.Json.Token
import AgentContent.Proofs.Json.Write
import AgentContent.Proofs.Content.Json
import AgentContent.Proofs.Manager.Json
import AgentContent.Proofs.Content.Equality
import AgentContent.Proofs.Ontology.Equality
import AgentContent.Proofs.Conversion.Internalise
import AgentContent.Proofs.Conversion.Externalise
import AgentContent.Proofs.Conversion.RoundTrip
import AgentContent.Proofs.Sl.Built
import AgentContent.Proofs.Vocabulary.Basic
import AgentContent.Proofs.Manager.Object
import AgentContent.Proofs.Manager.Run
import AgentContent.Proofs.Ontology.Ancestors
import AgentContent.Proofs.Ontology.WellFormed
import AgentContent.Proofs.Ontology.PrimitiveSlots
import AgentContent.Proofs.Json.Sorted
import AgentContent.Proofs.Conversion.Inferred
import AgentContent.Proofs.Conversion.NormalForm
import AgentContent.Proofs.Ontology.Extension
import AgentContent.Proofs.Manager.Interleaving
import AgentContent.Proofs.Sl.Grammar
import AgentContent.Proofs.Content.Digest
import AgentContent.Proofs.Content.Memo
import AgentContent.Proofs.Content.History
import AgentContent.Proofs.Ontology.Assignability
import AgentContent.Proofs.Content.Equivalence
import AgentContent.Proofs.Conversion.Interchange
import AgentContent.Proofs.Sl.Reencode
import AgentContent.Proofs.Sl.Reread
import AgentContent.Proofs.Ontology.Compatibility
import AgentContent.Proofs.Ontology.EffectiveSlots
import AgentContent.Proofs.Ontology.Subtyping
import AgentContent.Proofs.Ontology.Abstraction
import AgentContent.Proofs.Ontology.Strict
import AgentContent.Proofs.Sl.Offset
import AgentContent.Proofs.Sl.Context
import AgentContent.Proofs.Sl.Keyword
import AgentContent.Proofs.Conversion.WellBuilt
import AgentContent.Proofs.Template.Outline
import AgentContent.Proofs.Template.Valid
import AgentContent.Proofs.Template.Open
import AgentContent.Proofs.Template.Defaults
import AgentContent.Proofs.Template.Nullify
import AgentContent.Proofs.Template.Namespace
import AgentContent.Proofs.AgentId.Content
import AgentContent.Proofs.Manager.Fill
import AgentContent.Proofs.Ontology.Facets
import AgentContent.Proofs.Sl.DateWord
import AgentContent.Proofs.Content.Ledger
import AgentContent.Proofs.Ontology.Tables
