import TileOffload.Main
import TileOffload.Script
import TileOffload.Proofs.Packing
import TileOffload.Proofs.Checks
import TileOffload.Proofs.Placement
import TileOffload.Proofs.Hazards
import TileOffload.Proofs.Lockstep
import TileOffload.Proofs.FlatMemory
import TileOffload.Proofs.Launch
import TileOffload.Proofs.Schedule
import TileOffload.Proofs.Parts
import TileOffload.Proofs.Roster
import TileOffload.Proofs.Staging
import TileOffload.Proofs.StagingSteps
import TileOffload.Proofs.StagingRun
import TileOffload.Proofs.Setup
import TileOffload.Proofs.Service
import TileOffload.Proofs.Doomed
import TileOffload.Proofs.Progress
import TileOffload.Proofs.Smooth
import TileOffload.Proofs.Completion
import TileOffload.Proofs.FlatRefinement
import TileOffload.Proofs.TileRun
import TileOffload.Proofs.Traffic
import TileOffload.Proofs.Protocol
import TileOffload.Proofs.Causes
import TileOffload.Proofs.Containment
import TileOffload.Proofs.Stopped
import TileOffload.Proofs.Sessions
import TileOffload.Proofs.Resolution
import TileOffload.Proofs.Deferral
import TileOffload.Proofs.Promptness
import TileOffload.Proofs.Failing
import TileOffload.Proofs.Breakdown
import TileOffload.Proofs.InStep
import TileOffload.Proofs.UnitTrace
import TileOffload.Proofs.Verdict
import TileOffload.Proofs.Foretold
import TileOffload.Proofs.Foreseen
import TileOffload.Proofs.ErrorKinds
import TileOffload.Proofs.Ending
import TileOffload.Proofs.FirstFailure
import TileOffload.Proofs.Outcome
import TileOffload.Proofs.Race
import TileOffload.Proofs.Timing
import TileOffload.Proofs.Starting
import TileOffload.Proofs.Waiting
import TileOffload.Proofs.StartEffect
import TileOffload.Proofs.Places
import TileOffload.Proofs.CommandAgreement
import TileOffload.Proofs.CanonicalPacking
import TileOffload.Proofs.Acceptance
import TileOffload.Proofs.BackingStorage
import TileOffload.Proofs.StatusHistory
import TileOffload.Proofs.Transactions
import TileOffload.Proofs.Ancestry
import TileOffload.Proofs.Reordering
import TileOffload.Proofs.WordView
import TileOffload.Proofs.Differences
import TileOffload.Proofs.NumberGrammar
import TileOffload.Proofs.Seeds
