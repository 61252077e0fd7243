import RoadRouting.Main
import RoadRouting.Proofs.Bidirectional.Pinned
import RoadRouting.Proofs.Search.EarliestArrival
import RoadRouting.Proofs.RoadFile.Safety
import RoadRouting.Proofs.Bidirectional.Maps
import RoadRouting.Proofs.Search.Access
import RoadRouting.Proofs.Routes.Filters
import RoadRouting.Proofs.Bidirectional.Offsets
import RoadRouting.Proofs.Bidirectional.Pruned
import RoadRouting.Proofs.Search.Rooted
import RoadRouting.Proofs.Search.Termination
import RoadRouting.Proofs.Search.Modes
import RoadRouting.Proofs.Frontier.History
import RoadRouting.Proofs.Search.Beeline
import RoadRouting.Proofs.Access.Calls
import RoadRouting.Proofs.Weighting.Steady
import RoadRouting.Proofs.Routes.Points
import RoadRouting.Proofs.Network.Traversals
