import MarketMaking.Main
import MarketMaking.Proofs.Convergence
import MarketMaking.Proofs.EmptyBook
import MarketMaking.Proofs.NoOrphans
import MarketMaking.Simulation.Session
import MarketMaking.Wire.Model
import MarketMaking.Proofs.Bookkeeping
import MarketMaking.Proofs.IndexedTracker
import MarketMaking.Proofs.Interrupted
import MarketMaking.Proofs.Numbering
import MarketMaking.Proofs.Sweep
import MarketMaking.Proofs.TwoSided
import MarketMaking.Proofs.SingleQuotes
import MarketMaking.Proofs.ConfiguredDesk
import MarketMaking.Proofs.Upkeep
import MarketMaking.Proofs.Accounting
import MarketMaking.Proofs.Rational
import MarketMaking.Proofs.Division
import MarketMaking.Proofs.QuotingChain
import MarketMaking.Proofs.DecimalText
import MarketMaking.Proofs.JsonText
import MarketMaking.Proofs.Records
import MarketMaking.Proofs.PartialConfig
import MarketMaking.Proofs.Greedy
import MarketMaking.Proofs.Finality
import MarketMaking.Proofs.RoundTrip
import MarketMaking.Proofs.Sides
import MarketMaking.Proofs.Headroom
import MarketMaking.Proofs.Retention
import MarketMaking.Proofs.Infallible
import MarketMaking.Proofs.Atomicity
import MarketMaking.Proofs.Lifetimes
import MarketMaking.Proofs.Placements
import MarketMaking.Proofs.Visibility
import MarketMaking.Proofs.Cancellation
import MarketMaking.Proofs.Stopwatch
import MarketMaking.Proofs.Resubmission
import MarketMaking.Proofs.WholeSteps
import MarketMaking.Proofs.Drawing
import MarketMaking.Proofs.Backoff
import MarketMaking.Proofs.BatchOrder
import MarketMaking.Proofs.Wandering
