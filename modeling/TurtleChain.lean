import TurtleChain.Main
import TurtleChain.Record.Walk
import TurtleChain.Proofs.Chain.FirstError
import TurtleChain.Proofs.Chain.Printing
import TurtleChain.Proofs.Rewriting.Generations
import TurtleChain.Proofs.Chain.Composition
import TurtleChain.Proofs.Chain.Report
import TurtleChain.Proofs.Number.Order
import TurtleChain.Proofs.Number.Value
import TurtleChain.Proofs.Number.Packing
import TurtleChain.Proofs.Number.Arithmetic
import TurtleChain.Proofs.Chain.NumberText
import TurtleChain.Proofs.Curve.Parameter
import TurtleChain.Proofs.Curve.Written
import TurtleChain.Proofs.Curve.Layout
import TurtleChain.Proofs.NameMap
import TurtleChain.Proofs.Curve.Rules
import TurtleChain.Proofs.Config.Generation
import TurtleChain.Proofs.Walk.Accepted
import TurtleChain.Proofs.Curve.Jitter
import TurtleChain.Proofs.Config.Validation
import TurtleChain.Proofs.Curve.HilbertCells
import TurtleChain.Proofs.Walk.Routes
import TurtleChain.Proofs.Walk.Hilbert
import TurtleChain.Proofs.Curve.LSystem
import TurtleChain.Proofs.Walk.History
import TurtleChain.Proofs.Curve.ClosedForms
import TurtleChain.Proofs.Curve.Nesting
import TurtleChain.Proofs.Curve.Turns
import TurtleChain.Proofs.Walk.ECurve
import TurtleChain.Proofs.Number.Share
import TurtleChain.Proofs.Walk.Deeds
import TurtleChain.Proofs.Walk.Dropped
import TurtleChain.Proofs.Walk.LifeLimit
import TurtleChain.Proofs.Walk.Progress
import TurtleChain.Proofs.Walk.Scale
import TurtleChain.Proofs.Walk.Translation
import TurtleChain.Proofs.Chain.Tiling
import TurtleChain.Proofs.Chain.Cursor
import TurtleChain.Proofs.Curve.Notation
import TurtleChain.Proofs.Curve.SideLength
import TurtleChain.Proofs.Curve.Building
import TurtleChain.Proofs.Curve.Serpentine
import TurtleChain.Proofs.Chain.NumberToken
import TurtleChain.Proofs.Text.ByteOrder
import TurtleChain.Proofs.Rewriting.Collecting
import TurtleChain.Proofs.Chain.Listing
import TurtleChain.Proofs.Json.Doubles
import TurtleChain.Proofs.Json.Reading
import TurtleChain.Proofs.Chain.JsonText
import TurtleChain.Proofs.Walk.DrawNames
