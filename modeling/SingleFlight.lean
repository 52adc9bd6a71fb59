import SingleFlight.Calendar.Timestamp
import SingleFlight.Proofs.Step
import SingleFlight.Service.Listing
import SingleFlight.Service.Server
import SingleFlight.Simulation.Book
import SingleFlight.Simulation.Session
import SingleFlight.Proofs.Order
import SingleFlight.Proofs.Succession
import SingleFlight.Proofs.Provenance
import SingleFlight.Proofs.Coordination
import SingleFlight.Proofs.Invalidation
import SingleFlight.Proofs.Refill
import SingleFlight.Proofs.Waiting
import SingleFlight.Proofs.FirstOutcome
import SingleFlight.Proofs.Marks
import SingleFlight.Proofs.Coalescing
import SingleFlight.Proofs.LateFailure
import SingleFlight.Proofs.Filing
import SingleFlight.Proofs.Following
import SingleFlight.Proofs.Quiescence
import SingleFlight.Proofs.Spacing
import SingleFlight.Proofs.LostAttempt
import SingleFlight.Proofs.Sequential
import SingleFlight.Proofs.StreamOrder
import SingleFlight.Proofs.Dueness
import SingleFlight.Proofs.Recovery
import SingleFlight.Proofs.Cancellation
import SingleFlight.Proofs.Discharge
import SingleFlight.Proofs.Hearing
import SingleFlight.Proofs.Lifespan
import SingleFlight.Proofs.Holding
import SingleFlight.Proofs.Superseded
import SingleFlight.Proofs.Repacing
import SingleFlight.Proofs.Punctual
import SingleFlight.Proofs.Throttling
import SingleFlight.Proofs.Ledger
import SingleFlight.Proofs.Diagnostics
import SingleFlight.Proofs.History
import SingleFlight.Proofs.Rounds
import SingleFlight.Proofs.Streaming
import SingleFlight.Proofs.Unread
import SingleFlight.Proofs.Unbound
import SingleFlight.Proofs.Binding
import SingleFlight.Proofs.Outcomes
import SingleFlight.Proofs.Conservation
import SingleFlight.Proofs.FailedLaunch
import SingleFlight.Proofs.ReadBack
import SingleFlight.Proofs.Posting
import SingleFlight.Proofs.AtEase
import SingleFlight.Proofs.Settling
import SingleFlight.Proofs.EventEndpoint
import SingleFlight.Proofs.Overlap
import SingleFlight.Proofs.Lookouts
import SingleFlight.Proofs.ReadLoop
