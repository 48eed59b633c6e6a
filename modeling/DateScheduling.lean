import DateScheduling.Document.Codec
import DateScheduling.Proofs.Calendar.Enumeration
import DateScheduling.Proofs.Document.RoundTrip
import DateScheduling.Proofs.Model.Solutions
import DateScheduling.Proofs.Propagation.NodePass
import DateScheduling.Proofs.Propagation.RevisionLog
import DateScheduling.Proofs.Search.DeadEnds
import DateScheduling.Proofs.Solver.Conservation
import DateScheduling.Proofs.Solver.DayOrder
import DateScheduling.Proofs.Solver.Effort
import DateScheduling.Proofs.Solver.Exactness
import DateScheduling.Proofs.Solver.Forest
import DateScheduling.Proofs.Solver.Minima
import DateScheduling.Proofs.Solver.Replay
import DateScheduling.Proofs.Solver.Validation
import DateScheduling.Proofs.Solver.Live
import DateScheduling.Proofs.Search.Positions
import DateScheduling.Proofs.Search.Counting
import DateScheduling.Proofs.Network.Index
import DateScheduling.Proofs.Propagation.RevisionCount
import DateScheduling.Proofs.Propagation.WaitingArcs
import DateScheduling.Proofs.Search.Frontier
