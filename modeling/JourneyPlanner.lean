import JourneyPlanner.Main
import JourneyPlanner.Network.Writing
import JourneyPlanner.Proofs.Schedule.ExactLookup
import JourneyPlanner.Proofs.Schedule.FirstInFirstOut
import JourneyPlanner.Proofs.Schedule.WordRange
import JourneyPlanner.Proofs.Schedule.Expansion
import JourneyPlanner.Proofs.Search.Optimality
import JourneyPlanner.Proofs.Search.FoundFirst
import JourneyPlanner.Proofs.Search.Limits
import JourneyPlanner.Proofs.Search.WithinLimits
import JourneyPlanner.Proofs.Search.Conditions
import JourneyPlanner.Proofs.Search.ParetoFront
import JourneyPlanner.Proofs.Search.EdgeBounds
import JourneyPlanner.Proofs.Search.LeastWalks
import JourneyPlanner.Proofs.Journey.ThereAndBack
import JourneyPlanner.Proofs.Journey.Restrictions
import JourneyPlanner.Proofs.Journey.StreetTimes
import JourneyPlanner.Proofs.Journey.WholeWindow
import JourneyPlanner.Proofs.Network.WellFormed
import JourneyPlanner.Proofs.Network.OnBoard
import JourneyPlanner.Proofs.Network.EdgeEnds
import JourneyPlanner.Proofs.Network.Transfers
import JourneyPlanner.Live.Session
import JourneyPlanner.Proofs.Live.Session
import JourneyPlanner.Proofs.Live.Contract
import JourneyPlanner.Proofs.Live.Sequential
import JourneyPlanner.Proofs.Live.Polls
import JourneyPlanner.Proofs.Live.Starting
import JourneyPlanner.Proofs.Monitoring.Surveys
import JourneyPlanner.Proofs.Monitoring.JoinedTables
import JourneyPlanner.Proofs.Time.ServiceTimes
import JourneyPlanner.Proofs.Exposure.ThresholdTexts
