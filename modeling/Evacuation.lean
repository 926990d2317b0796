import Evacuation.Proofs.ClaimBoard.Uses
import Evacuation.Proofs.Journal.Filling
import Evacuation.Proofs.Race.Pauses
import Evacuation.Proofs.Race.Serial
import Evacuation.Proofs.RegionSet.Indices
import Evacuation.Proofs.Session.Abandonment
import Evacuation.Proofs.Session.Capacity
import Evacuation.Proofs.Session.Faults
import Evacuation.Proofs.Session.Notes
import Evacuation.Proofs.Session.Pause
import Evacuation.Proofs.Session.Profiles
import Evacuation.Proofs.Session.Renewal
import Evacuation.Proofs.Session.Replay
import Evacuation.Proofs.Session.Stability
import Evacuation.Sizing
