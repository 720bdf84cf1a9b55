import ClassRoster.Codec
import ClassRoster.Criterion.Descriptor
import ClassRoster.Criterion.Formula
import ClassRoster.Criterion.Subject
import ClassRoster.Json.Compact
import ClassRoster.Json.Reader
import ClassRoster.Session.Run
import ClassRoster.Version
import ClassRoster.Proofs.ByteOrder
import ClassRoster.Proofs.Reachable
import ClassRoster.Proofs.Views
import ClassRoster.Proofs.Derivation
import ClassRoster.Proofs.History
import ClassRoster.Proofs.Routing
import ClassRoster.Proofs.Readability
import ClassRoster.Proofs.Sentence
import ClassRoster.Proofs.Expression
import ClassRoster.Proofs.Placeholder
import ClassRoster.Proofs.Listening
import ClassRoster.Proofs.Congruence
import ClassRoster.Proofs.Counting
import ClassRoster.Proofs.Reporting
import ClassRoster.Proofs.Decoding
import ClassRoster.Proofs.ReportText
import ClassRoster.Proofs.Packages
import ClassRoster.Proofs.Building
import ClassRoster.Proofs.Rejoining
import ClassRoster.Proofs.Lookup
import ClassRoster.Proofs.Totals
import ClassRoster.Proofs.Walking
import ClassRoster.Proofs.FilterAlgebra
import ClassRoster.Proofs.NameParts
import ClassRoster.Proofs.Projection
import ClassRoster.Proofs.OnRecord
import ClassRoster.Proofs.Failing
import ClassRoster.Proofs.Subtrees
import ClassRoster.Proofs.Conversion
