import TaintFlow.CallPositionFrames
import TaintFlow.CallPositionFrames.Update
import TaintFlow.Config.Document
import TaintFlow.Config.Json
import TaintFlow.Frame.Parts
import TaintFlow.Json.Parser
import TaintFlow.Proofs.AccessPath.Canonical
import TaintFlow.Proofs.AccessPath.Grammar
import TaintFlow.Proofs.AccessPath.RoundTrip
import TaintFlow.Proofs.CallPositions.Agreement
import TaintFlow.Proofs.CallPositions.Machine
import TaintFlow.Proofs.CanonicalName.Template
import TaintFlow.Proofs.Config.Document
import TaintFlow.Proofs.Config.Loading
import TaintFlow.Proofs.Config.RoundTrip
import TaintFlow.Proofs.Feature.Composition
import TaintFlow.Proofs.Feature.Lattice
import TaintFlow.Proofs.Feature.Reachable
import TaintFlow.Proofs.Feature.WellFormed
import TaintFlow.Proofs.Grouped.Contents
import TaintFlow.Proofs.Grouped.Elements
import TaintFlow.Proofs.Grouped.Order
import TaintFlow.Proofs.Identity.Dispatch
import TaintFlow.Proofs.Identity.Held
import TaintFlow.Proofs.Identity.Mentions
import TaintFlow.Proofs.Identity.Pool
import TaintFlow.Proofs.Identity.Readings
import TaintFlow.Proofs.Identity.Run
import TaintFlow.Proofs.Json.RoundTrip
import TaintFlow.Proofs.Order.Absorption
import TaintFlow.Proofs.Order.Collected
import TaintFlow.Proofs.Order.Difference
import TaintFlow.Proofs.Order.Features
import TaintFlow.Proofs.Order.Frame
import TaintFlow.Proofs.Order.Frames
import TaintFlow.Proofs.Order.Laws
import TaintFlow.Proofs.Order.Meet
import TaintFlow.Proofs.Order.Regrouping
import TaintFlow.Proofs.Order.Semilattice
import TaintFlow.Proofs.Order.Taint
import TaintFlow.Proofs.Propagation.Certainty
import TaintFlow.Proofs.Propagation.Crossing
import TaintFlow.Proofs.Propagation.Distance
import TaintFlow.Proofs.Propagation.Features
import TaintFlow.Proofs.Propagation.Order
import TaintFlow.Proofs.Propagation.Ordinary
import TaintFlow.Proofs.Propagation.Pieces
import TaintFlow.Proofs.Propagation.Producers
import TaintFlow.Proofs.Propagation.Regimes
import TaintFlow.Proofs.Propagation.Reports
import TaintFlow.Proofs.Summary.CanonicalForm
import TaintFlow.Proofs.Summary.Loaded
import TaintFlow.Proofs.Summary.Outcome
import TaintFlow.Proofs.Summary.RoundTrip
import TaintFlow.Proofs.Summary.Written
import TaintFlow.Proofs.Text.Numeral
import TaintFlow.Proofs.Transform.Expansion
import TaintFlow.Proofs.Transform.Kinds
import TaintFlow.Proofs.Transform.Ports
import TaintFlow.Proofs.Transform.Positions
import TaintFlow.Proofs.Transform.Structural
import TaintFlow.Proofs.Validity.Machine
import TaintFlow.Proofs.Validity.Operations
import TaintFlow.Proofs.Validity.Within
import TaintFlow.Proofs.Widening.Closure
import TaintFlow.Proofs.Widening.Termination
import TaintFlow.Proofs.Widening.Universe
import TaintFlow.Proofs.Yaml.Block
import TaintFlow.Proofs.Yaml.Document
import TaintFlow.Proofs.Yaml.Flow
import TaintFlow.Proofs.Yaml.Lines
import TaintFlow.Proofs.Yaml.Scalar
import TaintFlow.Proofs.Yaml.Words
import TaintFlow.Propagation.Taint
import TaintFlow.Summary.Reader
import TaintFlow.Summary.Writer
