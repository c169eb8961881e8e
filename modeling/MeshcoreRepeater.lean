import MeshcoreRepeater.AdvertCodec
import MeshcoreRepeater.Wire
import MeshcoreRepeater.Link
import MeshcoreRepeater.Config.RoundTrip
import MeshcoreRepeater.Config.PolicyFile
import MeshcoreRepeater.Config.HubRooms
import MeshcoreRepeater.Config.Texts
import MeshcoreRepeater.Config.StrayLines
import MeshcoreRepeater.Config.ListFile
import MeshcoreRepeater.Mesh.Direct
import MeshcoreRepeater.Mesh.NeighborTable
import MeshcoreRepeater.Mesh.OnePolicy
import MeshcoreRepeater.Mesh.TwoNodes
import MeshcoreRepeater.Mesh.Dedup
import MeshcoreRepeater.Mesh.RoutedReply
import MeshcoreRepeater.Mesh.Identify
import MeshcoreRepeater.Mesh.TxQueue
import MeshcoreRepeater.Mesh.Replies
import MeshcoreRepeater.Mesh.Moderation
import MeshcoreRepeater.Mesh.MailReply
import MeshcoreRepeater.Mesh.Message
import MeshcoreRepeater.Backbone.Client
import MeshcoreRepeater.Backbone.Datagram
import MeshcoreRepeater.Backbone.Replay
import MeshcoreRepeater.Backbone.Rejected
import MeshcoreRepeater.Backbone.Headroom
import MeshcoreRepeater.Backbone.Resets
import MeshcoreRepeater.Backbone.PolicyRuns
import MeshcoreRepeater.Backbone.Agreement
import MeshcoreRepeater.Backbone.FrameReport
import MeshcoreRepeater.Backbone.HandshakeCodec
import MeshcoreRepeater.Backbone.JsonText
import MeshcoreRepeater.Lib.Packing
import MeshcoreRepeater.Backbone.NeighbourPages
import MeshcoreRepeater.Aprs.Callsign
import MeshcoreRepeater.Aprs.Position
import MeshcoreRepeater.Aprs.Server
import MeshcoreRepeater.Backbone.PageWalk
import MeshcoreRepeater.Web.Agreement
import MeshcoreRepeater.Monitor
import MeshcoreRepeater.Config.ChannelKeys
import MeshcoreRepeater.Crypto.Vendored
import MeshcoreRepeater.Aprs.Pacing
import MeshcoreRepeater.Radio.OnAir
