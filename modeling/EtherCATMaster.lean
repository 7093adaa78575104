import EtherCATMaster.Backend.Heartbeat
import EtherCATMaster.Backend.Stop
import EtherCATMaster.Backend.Enabling
import EtherCATMaster.Backend.Energise
import EtherCATMaster.Backend.FaultReset
import EtherCATMaster.Backend.IdleHold
import EtherCATMaster.Backend.CachedRead
import EtherCATMaster.Backend.LatestMove
import EtherCATMaster.Motion.SmoothMove
import EtherCATMaster.Backend.LongRun
import EtherCATMaster.Network.Session
import EtherCATMaster.Mailbox.ErrorList
import EtherCATMaster.Mailbox.Conservation
import EtherCATMaster.Mailbox.ExactlyOnce
import EtherCATMaster.Mailbox.SdoCodec
import EtherCATMaster.Mailbox.FoeWriting
import EtherCATMaster.Mailbox.ReceiveOwnership
import EtherCATMaster.Mailbox.SdoBounds
import EtherCATMaster.Mailbox.SoeWriting
import EtherCATMaster.Mailbox.OdList
import EtherCATMaster.Mailbox.EoeComplete
import EtherCATMaster.Mailbox.EoeIpCodec
import EtherCATMaster.Mailbox.WorkLimit
import EtherCATMaster.Mapping.SplitPath
import EtherCATMaster.Mapping.WorkingCounter
import EtherCATMaster.Nicdrv.FrameBounds
import EtherCATMaster.Nicdrv.Delivery
import EtherCATMaster.Nicdrv.Stale
import EtherCATMaster.Clock.ParentSearch
import EtherCATMaster.Clock.OffsetInvariance
import EtherCATMaster.Clock.SyncStart
import EtherCATMaster.Dll.ServoMove
import EtherCATMaster.Dll.NetStatus
import EtherCATMaster.Dll.Worker
import EtherCATMaster.Nicdrv.Recombination
import EtherCATMaster.Nicdrv.ReadState
import EtherCATMaster.Mapping.GroupImage
import EtherCATMaster.Motion.AccelerationLimit
import EtherCATMaster.Motion.ScurveExact
import EtherCATMaster.Dll.Statistics
import EtherCATMaster.Dll.Lookup
import EtherCATMaster.Dll.OwnData
import EtherCATMaster.Sii.EepromWrite
import EtherCATMaster.Sii.Pdo
import EtherCATMaster.Eni.Conversion
import EtherCATMaster.Lms.Stators
import EtherCATMaster.Mailbox.PdoAssign
import EtherCATMaster.Lms.CheckState
import EtherCATMaster.Lms.MotionPlanner
import EtherCATMaster.Config.ConfigInit
import EtherCATMaster.Config.SiiImage
