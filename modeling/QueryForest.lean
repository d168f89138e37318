import QueryForest.Text.Blank
import QueryForest.Text.Doubled
import QueryForest.Text.Hex
import QueryForest.Number.Layout
import QueryForest.Number.Reading
import QueryForest.Json.Document
import QueryForest.Json.Printer
import QueryForest.Calendar.Reading
import QueryForest.Uuid
import QueryForest.Digest.Md5
import QueryForest.Value.Encoding
import QueryForest.Value.Order
import QueryForest.Value.Text
import QueryForest.Mapping.Run
import QueryForest.Sql.Pieces
import QueryForest.Sql.Statement
import QueryForest.Config
import QueryForest.Graph.Preorder
import QueryForest.Tree.Description
import QueryForest.Forest.Select
import QueryForest.Forest.Call
import QueryForest.Proofs.Graph.Search
import QueryForest.Proofs.Graph.Preorder
import QueryForest.Proofs.Forest.Edits
import QueryForest.Proofs.Tree.Nodes
import QueryForest.Proofs.Forest.Changes
import QueryForest.Proofs.Tree.Links
import QueryForest.Proofs.Tree.Aliases
import QueryForest.Proofs.Tree.Growth
import QueryForest.Proofs.Forest.Sound
import QueryForest.Proofs.Forest.Steps
import QueryForest.Proofs.Forest.Runs
import QueryForest.Proofs.Forest.Attachment
import QueryForest.Proofs.Tree.Walk
import QueryForest.Proofs.Forest.History
import QueryForest.Proofs.Tree.Parts
import QueryForest.Proofs.Tree.Select
import QueryForest.Proofs.Forest.Nesting
import QueryForest.Proofs.Forest.Walks
import QueryForest.Proofs.Forest.Rendering
import QueryForest.Proofs.Sql.Scope
import QueryForest.Proofs.Tree.Scope
import QueryForest.Proofs.Forest.Scope
import QueryForest.Proofs.Forest.Recursion
import QueryForest.Proofs.Sql.Erasure
import QueryForest.Proofs.Forest.Parameters
import QueryForest.Proofs.Tree.Erasure
import QueryForest.Proofs.Forest.Erasure
import QueryForest.Proofs.Forest.Readable
import QueryForest.Proofs.Forest.Twins
import QueryForest.Proofs.Forest.Permanence
import QueryForest.Proofs.Tree.Derivation
import QueryForest.Proofs.Tree.InPlace
import QueryForest.Proofs.Forest.Failures
import QueryForest.Proofs.Forest.Aliases
import QueryForest.Proofs.Forest.Fragments
import QueryForest.Proofs.Sql.Values
import QueryForest.Proofs.Tree.Values
import QueryForest.Proofs.Forest.Journal
import QueryForest.Proofs.Forest.Values
import QueryForest.Proofs.Tree.Frame
import QueryForest.Proofs.Forest.Constancy
import QueryForest.Proofs.Forest.Requests
import QueryForest.Proofs.Forest.Frame
import QueryForest.Proofs.Forest.Unfetched
import QueryForest.Proofs.Forest.Branches
import QueryForest.Proofs.Forest.Chronicle
import QueryForest.Proofs.Tree.Projection
import QueryForest.Proofs.Tree.Columns
import QueryForest.Proofs.Forest.Projection
import QueryForest.Proofs.Mapping.Life
import QueryForest.Proofs.Mapping.Sound
import QueryForest.Proofs.Mapping.Runs
import QueryForest.Proofs.Mapping.Resolution
import QueryForest.Proofs.Mapping.Purges
import QueryForest.Proofs.Mapping.Requests
import QueryForest.Proofs.Forest.Renewal
import QueryForest.Proofs.Forest.Surroundings
import QueryForest.Proofs.Sql.Conjuncts
import QueryForest.Proofs.Tree.Clauses
import QueryForest.Proofs.Forest.Clauses
import QueryForest.Proofs.Forest.Reserved
import QueryForest.Proofs.Forest.Capture
import QueryForest.Proofs.Sql.References
import QueryForest.Proofs.Tree.Mentions
import QueryForest.Proofs.Forest.Mentions
import QueryForest.Proofs.Tree.Numbering
import QueryForest.Proofs.Forest.Fallback
import QueryForest.Proofs.Forest.Effects
import QueryForest.Proofs.Forest.Spelled
import QueryForest.Proofs.Forest.Interleavings
import QueryForest.Proofs.Mapping.Registration
import QueryForest.Proofs.Tree.Implicit
import QueryForest.Proofs.Forest.Actions
import QueryForest.Proofs.Forest.Joins
import QueryForest.Proofs.Forest.Enclosure
import QueryForest.Proofs.Forest.MapKeys
import QueryForest.Proofs.Forest.Derived
import QueryForest.Proofs.Text.Repeated
import QueryForest.Proofs.Mapping.Admission
import QueryForest.Proofs.Value.Literals
import QueryForest.Proofs.Number.Steps
import QueryForest.Proofs.Number.Rounding
import QueryForest.Proofs.Value.Order
import QueryForest.Proofs.Text.Apart
import QueryForest.Proofs.Json.Equality
import QueryForest.Proofs.Value.Equality
