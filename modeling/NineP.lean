import NineP.Client.Delivery
import NineP.Client.Loops
import NineP.Client.Path
import NineP.Client.Reuse
import NineP.Client.Seek
import NineP.Client.SessionManager
import NineP.Client.Writer
import NineP.Client.XattrTransfer
import NineP.EndToEnd
import NineP.OnTheWire
import NineP.Server.Backpressure
import NineP.Server.ByFid
import NineP.Server.Cancel
import NineP.Server.ConnEnd
import NineP.Server.ConnReuse
import NineP.Server.ConnWorkers
import NineP.Server.DirHandle
import NineP.Server.DirentCodec
import NineP.Server.FidPath
import NineP.Server.HandleIo
import NineP.Server.HandleRelease
import NineP.Server.InflightUse
import NineP.Server.MemFile
import NineP.Server.MemFsOrder
import NineP.Server.NodeClose
import NineP.Server.NodeUse
import NineP.Server.OpenedNode
import NineP.Server.Output
import NineP.Server.PassthroughTimes
import NineP.Server.QidMap
import NineP.Server.RefBalance
import NineP.Server.Teardown
import NineP.Server.XattrCommit
