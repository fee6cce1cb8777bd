import CppMeet.Whiteboard.Replicas
import CppMeet.Whiteboard.MergeLaws
import CppMeet.Whiteboard.StateJson
import CppMeet.Whiteboard.FullSync
import CppMeet.Whiteboard.OwnActions
import CppMeet.Whiteboard.ClockBounds
import CppMeet.Whiteboard.FailedLoads
import CppMeet.Srtp.CounterReuse
import CppMeet.Srtp.Inverse
import CppMeet.Srtp.HeaderBoundary
import CppMeet.Rtp.NackRoundTrip
import CppMeet.Rtp.Grammar
import CppMeet.Rtp.Reordering
import CppMeet.Rtp.StalePackets
import CppMeet.Rtp.NackMinimal
import CppMeet.Weak.FecPasses
import CppMeet.Weak.FecGroups
import CppMeet.Weak.FecHeaders
import CppMeet.Weak.NackGaps
import CppMeet.Weak.ReleaseOrder
import CppMeet.Weak.NackHistory
import CppMeet.Weak.WrapOrder
import CppMeet.Weak.ClockOffset
import CppMeet.Net.RingRefinement
import CppMeet.Net.IoContext
import CppMeet.Net.Demux
import CppMeet.Net.FailedDecoding
import CppMeet.Video.Reassembly
import CppMeet.Signaling.Presence
import CppMeet.Signaling.Isolation
import CppMeet.Signaling.Relay
import CppMeet.Signaling.WsFrames
import CppMeet.Signaling.WsBounds
import CppMeet.Signaling.WsRoundTrip
import CppMeet.Signaling.Pong
import CppMeet.Signaling.RoomIndex
import CppMeet.Signaling.SdpRoundTrip
import CppMeet.Signaling.SdpTotal
import CppMeet.Signaling.CallbackLocks
import CppMeet.Signaling.Descriptors
import CppMeet.Signaling.LifeCycle
import CppMeet.Ice.Connectivity
import CppMeet.Ice.StunRoundTrip
import CppMeet.Ice.Handshake
import CppMeet.Ice.Integrity
import CppMeet.Sfu.Registrations
import CppMeet.Sfu.RtcpPath
import CppMeet.Ice.Network
import CppMeet.Video.Delivery
import CppMeet.Sfu.Conference
import CppMeet.Signaling.OutStream
import CppMeet.Signaling.InStream
import CppMeet.Signaling.SdpNormal
import CppMeet.Weak.FecNetwork
import CppMeet.Weak.QueueGrowth
import CppMeet.Weak.NackRepair
import CppMeet.Weak.Occupancy
import CppMeet.Dtls.Exchange
import CppMeet.Audio.Capturer
import CppMeet.Net.Sockets
import CppMeet.Client.Pipeline
