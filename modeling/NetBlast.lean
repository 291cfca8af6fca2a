import NetBlast.Dramblast.Flows
import NetBlast.Dramblast.Install
import NetBlast.Dramblast.Layout
import NetBlast.Concurrent.Soundness
import NetBlast.Fnv
import NetBlast.Permutation
import NetBlast.L2fwd.Flowkey
import NetBlast.L2fwd.Modes
import NetBlast.L2fwd.Distribution
import NetBlast.L2fwd.Averages
import NetBlast.L2fwd.Samples
import NetBlast.Sashstore.History
import NetBlast.Sashstore.Replies
import NetBlast.Sashstore.ProcessFrame
import NetBlast.Draft.Turns
import NetBlast.Populate
import NetBlast.Admission.FirstCome
import NetBlast.L2fwd.Overflow
import NetBlast.L2fwd.Rewrite
import NetBlast.L2fwd.Plane
import NetBlast.L2fwd.Accounting
import NetBlast.L2fwd.Baseline
import NetBlast.Pktgen.Frame
import NetBlast.Pktgen.Transmit
import NetBlast.Pktgen.Receive
import NetBlast.Pktgen.Roles
import NetBlast.Pktgen.Flows
import NetBlast.Pktgen.Testbed
import NetBlast.Pktgen.Reports
import NetBlast.Cli.Settings
import NetBlast.L2fwd.Startup
import NetBlast.L2fwd.Pairing
import NetBlast.Dramblast.Lifecycle
import NetBlast.Concurrent.Affinity
import NetBlast.Concurrent.Batches
import NetBlast.Concurrent.Linearizable
