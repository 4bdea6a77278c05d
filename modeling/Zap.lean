import Zap.ConnStream
import Zap.Handshake.Agreement
import Zap.Handshake.Pinning
import Zap.Handshake.Resumption
import Zap.Handshake.ReplayOnce
import Zap.Dex.Settlement
import Zap.Forwarding.Relay
import Zap.Forwarding.Tunnel
import Zap.Client.AllowList
import Zap.Quic.Factory
import Zap.Node.Waiting
import Zap.Node.OneWay
import Zap.Node.Dialing
import Zap.Handshake.ReplaySpan
import Zap.Node.Registry
import Zap.Dex.Prepare
import Zap.Dex.Close
import Zap.Dex.Recycle
import Zap.Dex.Track
import Zap.Handshake.KeySchedule
import Zap.Handshake.SessionLimits
import Zap.Handshake.Framing
import Zap.Attestation
import Zap.Registration
import Zap.Wire.Lists
import Zap.Codegen
import Zap.Node.Loops
import Zap.Router
import Zap.Node.Stranded
import Zap.Node.Readers
import Zap.Node.Handles
import Zap.Quic.Streams
import Zap.Dex.RouteEvents
import Zap.Forwarding.Push
import Zap.Dex.Envelopes
import Zap.Browse
import Zap.Web.Client
import Zap.Web.Server
import Zap.Web.Reader
import Zap.Mcp.Bridge
