import Blossom.BufferedReplay
import Blossom.DagTallies
import Blossom.EpochBytes
import Blossom.HaClusterSafety
import Blossom.HaCompaction
import Blossom.HaConfirmations
import Blossom.HaReconstruction
import Blossom.HaVotes
import Blossom.LaggingValidator
import Blossom.LeaseThreads
import Blossom.LeaseVotes
import Blossom.LogCrashes
import Blossom.OrderedInstall
import Blossom.ReadBarriers
import Blossom.ServiceDiscovery
import Blossom.TrustedBlockRuns
import Blossom.VerifierChanges
import Blossom.VoteCounts
import Blossom.WireRequests
