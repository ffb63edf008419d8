import GrowthOrder.Main
import GrowthOrder.Search.WarmCache
import GrowthOrder.Proofs.Binary64.Packing
import GrowthOrder.Proofs.Binary64.Rounding
import GrowthOrder.Proofs.Recurrence.Grammar
import GrowthOrder.Proofs.Recurrence.LikeTerms
import GrowthOrder.Proofs.Recurrence.Splitting
import GrowthOrder.Proofs.Token.Lexer
import GrowthOrder.Proofs.Recurrence.Parser
import GrowthOrder.Proofs.Binary64.Reading
import GrowthOrder.Proofs.Binary64.Value
import GrowthOrder.Proofs.Binary64.Equality
import GrowthOrder.Proofs.Decimal.Shortest
import GrowthOrder.Proofs.Recurrence.Printer
import GrowthOrder.Proofs.Recurrence.RoundTrip
import GrowthOrder.Proofs.Characteristic
import GrowthOrder.Proofs.Search.Brent
import GrowthOrder.Proofs.Search.Crossing
import GrowthOrder.Proofs.Search.Dominance
import GrowthOrder.Proofs.Search.Newton
import GrowthOrder.Proofs.Search.WarmStart
import GrowthOrder.Proofs.Search.Spread
import GrowthOrder.Proofs.Recurrence.Blanks
import GrowthOrder.Proofs.Search.Protocol
import GrowthOrder.Proofs.Binary64.Order
import GrowthOrder.Proofs.Binary64.Range
import GrowthOrder.Proofs.Search.Exchange
import GrowthOrder.Proofs.Recurrence.Overflow
import GrowthOrder.Proofs.Token.Tiling
import GrowthOrder.Proofs.Recurrence.Refusals
import GrowthOrder.Proofs.Recurrence.NormalForm
import GrowthOrder.Proofs.Recurrence.InRange
import GrowthOrder.Proofs.Search.Enclosure
import GrowthOrder.Proofs.Search.Outcome
import GrowthOrder.Proofs.Search.History
import GrowthOrder.Proofs.Search.LowerBound
import GrowthOrder.Proofs.Growth
import GrowthOrder.Proofs.Analysis
import GrowthOrder.Proofs.CommandLine
import GrowthOrder.Proofs.Explorer.Session
import GrowthOrder.Proofs.Search.Certificate
import GrowthOrder.Proofs.Search.Narrowing
import GrowthOrder.Proofs.Explorer.Drawing
import GrowthOrder.Proofs.Search.Rejection
import GrowthOrder.Proofs.Binary64.Positive
import GrowthOrder.Proofs.Search.Doubling
import GrowthOrder.Proofs.Search.FitEnds
import GrowthOrder.Proofs.Recurrence.Groups
import GrowthOrder.Proofs.Recurrence.Slots
import GrowthOrder.Proofs.Recurrence.Collected
import GrowthOrder.Proofs.SignedZero
import GrowthOrder.Proofs.Decimal.Ceiling
import GrowthOrder.Proofs.Recurrence.Constants
import GrowthOrder.Proofs.Explorer.Curve
import GrowthOrder.Proofs.Explorer.Overview
