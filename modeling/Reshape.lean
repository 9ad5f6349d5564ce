import Reshape.Chain.Calls
import Reshape.Document
import Reshape.Filter.Summary
import Reshape.Proofs.Evaluator.Nesting
import Reshape.Proofs.Evaluator.Pipeline
import Reshape.Proofs.Evaluator.Entries
import Reshape.Proofs.Path.Segment
import Reshape.Proofs.Path.Slot
import Reshape.Proofs.Path.Lens
import Reshape.Proofs.Path.Frame
import Reshape.Proofs.Path.Grammar
import Reshape.Proofs.Path.Reader
import Reshape.Proofs.Path.Alike
import Reshape.Proofs.Value.Tree
import Reshape.Proofs.Spec.Data
import Reshape.Proofs.Registry.Build
import Reshape.Proofs.Registry.Run
import Reshape.Proofs.Registry.Merge
import Reshape.Proofs.Filter.LeadingInt
import Reshape.Proofs.Path.Join
import Reshape.Proofs.Text.LongestNumeral
import Reshape.Proofs.Sort.Comparator
import Reshape.Proofs.Json.Scalar
import Reshape.Proofs.Value.Nesting
import Reshape.Proofs.Json.Container
import Reshape.Proofs.Json.RoundTrip
import Reshape.Proofs.Double.Reading
import Reshape.Proofs.Double.Shortest
import Reshape.Proofs.Double.Text
import Reshape.Proofs.Filter.Sum
import Reshape.Proofs.Sort.ByText
import Reshape.Proofs.Path.Growth
import Reshape.Proofs.Path.Obstacle
import Reshape.Proofs.Sort.Agreement
import Reshape.Proofs.Value.Nodes
import Reshape.Proofs.Spec.Pointer
import Reshape.Proofs.Value.Match
import Reshape.Proofs.Filter.Selection
import Reshape.Proofs.Filter.Slice
import Reshape.Proofs.Filter.Shorthand
import Reshape.Proofs.Filter.LeadingNumber
import Reshape.Proofs.Filter.Flatten
import Reshape.Proofs.Filter.Representatives
import Reshape.Proofs.Filter.Unique
import Reshape.Proofs.Path.Render
import Reshape.Proofs.Path.Offset
import Reshape.Proofs.Evaluator.Names
import Reshape.Proofs.Spec.Repeats
import Reshape.Proofs.Filter.WordText
