import Setdns.Macos.AtomicApply
import Setdns.Macos.CrashRecovery
import Setdns.Macos.ConcurrentApply
import Setdns.Effects.Ownership
import Setdns.Linux.LinkRestore
import Setdns.Linux.AtomicApply
import Setdns.Linux.Dispatch
import Setdns.Linux.ExactRestore
import Setdns.Linux.ConcurrentApply
import Setdns.Config.Domains
import Setdns.Linux.Preservation
import Setdns.Macos.Isolation
import Setdns.Macos.ExactEffect
import Setdns.Windows.Isolation
import Setdns.Windows.AtomicApply
import Setdns.SnapshotBackends
import Setdns.TestRunner.Verdict
import Setdns.Config.Grammar
import Setdns.ServerLists
import Setdns.Windows.Device
import Setdns.Windows.BestEffort
import Setdns.Windows.ExactEffect
import Setdns.Macos.GlobalFailure
import Setdns.Macos.CleanupComplete
import Setdns.Windows.Store
import Setdns.Windows.ConcurrentApply
import Setdns.Macos.Dispatch
import Setdns.Linux.Clients
import Setdns.Windows.Clients
