import RootSearch.Black.QuoteSolver
import RootSearch.CashFlow.Yield
import RootSearch.Formula
import RootSearch.Nested
import RootSearch.Proofs.Accounting
import RootSearch.Proofs.Accuracy
import RootSearch.Proofs.Batches
import RootSearch.Proofs.Bounds
import RootSearch.Proofs.Bracketing
import RootSearch.Proofs.BrentPace
import RootSearch.Proofs.BrentqGenuine
import RootSearch.Proofs.Budget
import RootSearch.Proofs.Charges
import RootSearch.Proofs.ClosingIn
import RootSearch.Proofs.Configuration
import RootSearch.Proofs.Containment
import RootSearch.Proofs.Contrapoint
import RootSearch.Proofs.Covariance
import RootSearch.Proofs.DiscountDomain
import RootSearch.Proofs.Divisors
import RootSearch.Proofs.DoubleDifference
import RootSearch.Proofs.DoubleDistance
import RootSearch.Proofs.DoubleHalf
import RootSearch.Proofs.DoubleNaN
import RootSearch.Proofs.DoubleOrder
import RootSearch.Proofs.DoubleProducts
import RootSearch.Proofs.DoubleSigns
import RootSearch.Proofs.Endings
import RootSearch.Proofs.Ends
import RootSearch.Proofs.Ensures
import RootSearch.Proofs.Entrywise
import RootSearch.Proofs.Faultless
import RootSearch.Proofs.Genuine
import RootSearch.Proofs.GivingUp
import RootSearch.Proofs.Growth
import RootSearch.Proofs.Halving
import RootSearch.Proofs.Handover
import RootSearch.Proofs.Heads
import RootSearch.Proofs.Landing
import RootSearch.Proofs.LiveFlows
import RootSearch.Proofs.Locality
import RootSearch.Proofs.Misses
import RootSearch.Proofs.MonotoneSearch
import RootSearch.Proofs.Multiples
import RootSearch.Proofs.NewtonPace
import RootSearch.Proofs.NormalLaw
import RootSearch.Proofs.Order
import RootSearch.Proofs.Orientation
import RootSearch.Proofs.Overrun
import RootSearch.Proofs.Pace
import RootSearch.Proofs.Parity
import RootSearch.Proofs.Passes
import RootSearch.Proofs.PresentValues
import RootSearch.Proofs.PriceShapes
import RootSearch.Proofs.Progress
import RootSearch.Proofs.Reals
import RootSearch.Proofs.Recognition
import RootSearch.Proofs.Replay
import RootSearch.Proofs.ReportedEnds
import RootSearch.Proofs.RowWise
import RootSearch.Proofs.SampledRoots
import RootSearch.Proofs.SearchFaults
import RootSearch.Proofs.Searching
import RootSearch.Proofs.SignChange
import RootSearch.Proofs.SignCheck
import RootSearch.Proofs.SignsKept
import RootSearch.Proofs.SingleOptions
import RootSearch.Proofs.Soundness
import RootSearch.Proofs.Stalls
import RootSearch.Proofs.Statuses
import RootSearch.Proofs.Strategy
import RootSearch.Proofs.Succeeding
import RootSearch.Proofs.Tables
import RootSearch.Proofs.Twins
import RootSearch.Proofs.TwoRuns
import RootSearch.Proofs.VegaSlope
import RootSearch.Proofs.VolRange
import RootSearch.Proofs.WellFormed
import RootSearch.Proofs.YieldSlope
import RootSearch.Proofs.ZeroEnds
