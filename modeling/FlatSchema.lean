import FlatSchema.Files.Tree
import FlatSchema.Main
import FlatSchema.Proofs.Declaration.Soundness
import FlatSchema.Proofs.Token.Partition
import FlatSchema.Proofs.Definition.Attributes
import FlatSchema.Proofs.Definition.Field
import FlatSchema.Proofs.Declaration.Completeness
import FlatSchema.Proofs.Token.Writing
import FlatSchema.Proofs.Declaration.Abstract
import FlatSchema.Proofs.Declaration.RoundTrip
import FlatSchema.Proofs.Definition.Reports
import FlatSchema.Proofs.Declaration.Resumption
import FlatSchema.Proofs.Definition.Analysis
import FlatSchema.Proofs.Declaration.Concatenation
import FlatSchema.Proofs.Definition.Concatenation
import FlatSchema.Proofs.Diagnostic.Absorption
import FlatSchema.Proofs.Definition.Coherence
import FlatSchema.Proofs.Definition.Handoff
import FlatSchema.Proofs.CommandLine.Outputs
import FlatSchema.Proofs.Diagnostic.History
import FlatSchema.Proofs.Definition.Unplaced
import FlatSchema.Proofs.CommandLine.Outcome
import FlatSchema.Proofs.Declaration.Nesting
import FlatSchema.Proofs.Declaration.Isolation
import FlatSchema.Proofs.Declaration.Sites
import FlatSchema.Proofs.Token.Rereading
import FlatSchema.Proofs.Declaration.Defaults
import FlatSchema.Proofs.Token.Number
import FlatSchema.Proofs.Token.RoundTrip
import FlatSchema.Proofs.CommandLine.Messages
import FlatSchema.Proofs.Declaration.Bounds
import FlatSchema.Proofs.Definition.Clashes
import FlatSchema.Proofs.Definition.Index
import FlatSchema.Proofs.Definition.Origin
import FlatSchema.Proofs.Source.Walk
import FlatSchema.Proofs.CommandLine.Schemas
