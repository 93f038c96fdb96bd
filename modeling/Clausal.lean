import Clausal.Alphabet
import Clausal.Basis
import Clausal.Calculus
import Clausal.Clause
import Clausal.ClauseSet
import Clausal.Command
import Clausal.Command.Help
import Clausal.Command.Options
import Clausal.Decimal.Binary64
import Clausal.Decimal.Shortest
import Clausal.Error
import Clausal.Exchange
import Clausal.Files
import Clausal.Formula
import Clausal.Formula.Reader
import Clausal.Json.Basic
import Clausal.Json.Normal
import Clausal.Json.Numeral
import Clausal.Json.Reader
import Clausal.Json.StringLiteral
import Clausal.Json.Token
import Clausal.Leaderboard
import Clausal.Literal
import Clausal.Main
import Clausal.Resolution.Calculus
import Clausal.Resolution.State
import Clausal.Resolution.Step
import Clausal.Seal
import Clausal.Semantics
import Clausal.Service
import Clausal.Tableau.Calculus
import Clausal.Tableau.Growth
import Clausal.Tableau.State
import Clausal.Tableau.Step
import Clausal.Tableau.Structure
import Clausal.Tableau.Tree
import Clausal.Text.Quoted
import Clausal.Wire.Logic
import Clausal.Wire.Outcome
import Clausal.Wire.Record
import Clausal.Wire.Resolution
import Clausal.Wire.Tableau
import Clausal.Wire.Value
import Clausal.Proofs.Play
import Clausal.Proofs.Tableau.Walk
import Clausal.Proofs.Tableau.Growth
import Clausal.Proofs.Tableau.Sound
import Clausal.Proofs.Tableau.Legality
import Clausal.Proofs.Tableau.Replay
import Clausal.Proofs.Tableau.Soundness
import Clausal.Proofs.Tableau.Closure
import Clausal.Proofs.Tableau.History
import Clausal.Proofs.ClauseSet
import Clausal.Proofs.Formula
import Clausal.Proofs.Refutation
import Clausal.Proofs.Resolution.Legality
import Clausal.Proofs.Resolution.Soundness
import Clausal.Proofs.Resolution.Completeness
import Clausal.Proofs.Tableau.Progress
import Clausal.Proofs.Tableau.Completeness
import Clausal.Proofs.Text.Quoted
import Clausal.Proofs.Basis
import Clausal.Proofs.Seal
import Clausal.Proofs.Distinct
import Clausal.Proofs.Formula.Grammar
import Clausal.Proofs.Json.Order
import Clausal.Proofs.Wire.Reading
import Clausal.Proofs.Wire.Lossless
import Clausal.Proofs.Wire.RoundTrip
import Clausal.Proofs.Session
import Clausal.Proofs.Simulation
import Clausal.Proofs.Tableau.Census
import Clausal.Proofs.Tableau.Connection
import Clausal.Proofs.Tableau.Regularity
import Clausal.Proofs.Tableau.NoDeadEnds
import Clausal.Proofs.OrderedSet
import Clausal.Proofs.Formula.Leftmost
import Clausal.Proofs.Formula.Rendering
import Clausal.Proofs.Tableau.Termination
import Clausal.Proofs.Tableau.Successors
import Clausal.Proofs.Tableau.Admission
import Clausal.Proofs.Tableau.Commutation
import Clausal.Proofs.Resolution.Symmetry
import Clausal.Proofs.Tableau.MoveCount
import Clausal.Proofs.Resolution.Hints
import Clausal.Proofs.Leaderboard
