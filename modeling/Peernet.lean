import Peernet.Go.Strings
import Peernet.Peer.Registry
import Peernet.Peer.Commands
import Peernet.Peer.KeepAlive
import Peernet.Peer.PingRate
import Peernet.Go.IP
import Peernet.Go.Slice
import Peernet.Network.Detection
import Peernet.Go.HostPort
import Peernet.Go.IPText
import Peernet.Network.Init
import Peernet.Network.Monitor
import Peernet.Network.Listeners
import Peernet.Peer.Dispatch
import Peernet.Peer.Node
import Peernet.Go.Hex
import Peernet.Peer.Identity
import Peernet.Peer.Tick
