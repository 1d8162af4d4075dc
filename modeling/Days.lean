import Days.Logic.DcqcnPacing
import Days.Logic.SeededMatrix
import Days.Logic.RoceSafety
import Days.Logic.TcpCurve
import Days.Logic.TcpSafety
import Days.Logic.SerialLoop
import Days.Logic.PacketStore
import Days.Logic.StageExact
import Days.Logic.StageGraph
import Days.Logic.AicbOrder
import Days.Logic.Reassembly
import Days.Logic.DeficitRun
import Days.Logic.ServicePlan
import Days.Logic.StaticPriority
import Days.Logic.EcnRamp
import Days.Logic.FairQueue
import Days.Logic.StageRun
import Days.Logic.ChunkTiling
import Days.Logic.DeviceDcqcn
import Days.Topos.EqualCost
import Days.Topos.Rail
import Days.Logic.RingChannels
import Days.Logic.PendingCauses
import Days.Device.Serialization
