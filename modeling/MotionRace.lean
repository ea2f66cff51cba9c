import MotionRace.Command.InMemory
import MotionRace.Main
import MotionRace.Proofs.Race.BetweenRaces
import MotionRace.Proofs.Race.Flags
import MotionRace.Proofs.Race.SingleFlight
import MotionRace.Race.Rig
import MotionRace.Scripted.Domain
import MotionRace.Proofs.Race.CalledOff
import MotionRace.Proofs.Pool.Alone
import MotionRace.Proofs.Race.Launches
import MotionRace.Proofs.Race.Tally
import MotionRace.Proofs.Race.Refinement
import MotionRace.Proofs.Race.Tokens
import MotionRace.Proofs.Race.Polls
import MotionRace.Proofs.Race.Aftermath
import MotionRace.Proofs.Race.Signals
import MotionRace.Proofs.Race.LateAbort
import MotionRace.Proofs.Planner.Yields
import MotionRace.Proofs.Planner.ReturnedPlans
import MotionRace.Proofs.Race.TurnedAway
import MotionRace.Proofs.FileStore.Append
import MotionRace.Proofs.Race.Logged
import MotionRace.Proofs.Scenario.Accepted
import MotionRace.Proofs.Race.Answers
import MotionRace.Proofs.Scenario.Provisioned
import MotionRace.Proofs.Planner.Meets
import MotionRace.Proofs.Planner.Refusals
import MotionRace.Proofs.Scenario.Crashes
import MotionRace.Proofs.Planner.Cancelled
import MotionRace.Proofs.Race.RoundRobin
import MotionRace.Proofs.Planner.SampleStream
import MotionRace.Proofs.Binary64.Rounding
import MotionRace.Proofs.Binary64.Values
import MotionRace.Proofs.Binary64.Operations
import MotionRace.Proofs.Binary64.Floats
import MotionRace.Proofs.Planner.FreeSpace
import MotionRace.Proofs.Pool.Journal
import MotionRace.Proofs.Pool.Positions
import MotionRace.Proofs.Pool.Isolation
import MotionRace.Proofs.Binary64.Distances
import MotionRace.Proofs.Planner.PlanEnds
import MotionRace.Proofs.Race.Eligible
import MotionRace.Proofs.Geometry.Distances
import MotionRace.Proofs.Planner.Courses
import MotionRace.Proofs.Planner.InRange
import MotionRace.Proofs.Planner.StartingPositions
import MotionRace.Proofs.Planner.Draws
import MotionRace.Proofs.Planner.SeededStreams
import MotionRace.Proofs.Arm.Copies
import MotionRace.Proofs.Arm.Frames
import MotionRace.Proofs.Race.SharedFlags
import MotionRace.Proofs.Scenario.Overridden
import MotionRace.Proofs.Binary64.Specials
import MotionRace.Proofs.Geometry.LinkEnds
import MotionRace.Proofs.Binary64.Nearness
import MotionRace.Proofs.Decimal.Digits
import MotionRace.Proofs.Decimal.Parts
import MotionRace.Proofs.Report.Durations
import MotionRace.Proofs.Decimal.Nearest
import MotionRace.Proofs.Decimal.Shortest
import MotionRace.Proofs.Json.Numbers
import MotionRace.Proofs.Json.Tokens
import MotionRace.Proofs.Json.Values
import MotionRace.Proofs.Json.Problems
