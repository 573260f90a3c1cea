import Malleus.AddressSearch
import Malleus.ArpTable
import Malleus.AutoconfigureOutcome
import Malleus.Boot
import Malleus.Certificates
import Malleus.Cli
import Malleus.CloudConfig
import Malleus.Commands
import Malleus.Config
import Malleus.Confinement
import Malleus.Credentials
import Malleus.Diagnosis
import Malleus.Discovery
import Malleus.Files
import Malleus.GracePeriod
import Malleus.GuestAddress
import Malleus.HardwareAddress
import Malleus.Image
import Malleus.ImageHealing
import Malleus.ImageReads
import Malleus.ImageRecovery
import Malleus.ImageSizes
import Malleus.Incus
import Malleus.LeaseFile
import Malleus.LeaseNames
import Malleus.LeaseRecords
import Malleus.Leases
import Malleus.Library.Cidr
import Malleus.Library.Effect
import Malleus.Library.Errors
import Malleus.Library.Faults
import Malleus.Library.Filling
import Malleus.Library.Numbers
import Malleus.Library.Paths
import Malleus.Library.Polling
import Malleus.Library.Runs
import Malleus.Library.Storage
import Malleus.Library.Strings
import Malleus.Library.Views
import Malleus.Library.Yaml
import Malleus.Lifecycle
import Malleus.MetaData
import Malleus.MountCommands
import Malleus.MountTags
import Malleus.NetRoute
import Malleus.Observation
import Malleus.PidFile
import Malleus.Pki
import Malleus.PkiRecovery
import Malleus.PkiRetry
import Malleus.Preservation
import Malleus.Probe
import Malleus.ProbeRuns
import Malleus.Process
import Malleus.Provision
import Malleus.Recovery
import Malleus.RemoteList
import Malleus.RemoteTables
import Malleus.Remotes
import Malleus.Reset
import Malleus.RestApi
import Malleus.Secrets
import Malleus.SerialLog
import Malleus.Start
import Malleus.StartOutcome
import Malleus.StopSignals
import Malleus.System
import Malleus.TornReports
import Malleus.UserData
import Malleus.UserDataKeys
import Malleus.Vm
import Malleus.VmDevices
import Malleus.VmOptions
import Malleus.Wiring
import Malleus.World
