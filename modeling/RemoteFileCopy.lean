import RemoteFileCopy.Queue.Laws
import RemoteFileCopy.Server.Relabel
import RemoteFileCopy.Server.Oldest
import RemoteFileCopy.Server.EofAck
import RemoteFileCopy.DataPhase.Noise
import RemoteFileCopy.DataPhase.Recovery
import RemoteFileCopy.DataPhase.LossFree
import RemoteFileCopy.Setup.Survival
import RemoteFileCopy.Setup.Unchecked
import RemoteFileCopy.Setup.AcceptLoop
import RemoteFileCopy.Client.Renumbered
import RemoteFileCopy.Setup.Redirect
import RemoteFileCopy.Setup.Silence
import RemoteFileCopy.Setup.Retries
import RemoteFileCopy.Setup.Runts
import RemoteFileCopy.Server.Cumulative
import RemoteFileCopy.Client.Flush
import RemoteFileCopy.DataPhase.Wraparound
import RemoteFileCopy.System.Overrun
import RemoteFileCopy.System.Completion
import RemoteFileCopy.System.MixedHosts
import RemoteFileCopy.Resources.ChildDescriptors
import RemoteFileCopy.Resources.ChildHeap
