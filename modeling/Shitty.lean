import Shitty.Net.Theorems.Wire
import Shitty.Hpack.Number
import Shitty.Hpack.Theorems.Huffman
import Shitty.Hpack.Theorems.Table
import Shitty.Hpack.Decoder
import Shitty.Hpack.Reference
import Shitty.Hpack.Logic.HuffDecode
import Shitty.Hpack.Logic.HuffEncode
import Shitty.Hpack.Logic.Decoder
import Shitty.Hpack.Theorems.Decoder
import Shitty.Http2.Frame
import Shitty.Http2.Theorems.Frame
import Shitty.Core.Message
import Shitty.Http2.ServerStream
import Shitty.Http2.Settings
import Shitty.Lib.Resumable
import Shitty.Http2.ServerTransport
import Shitty.Http2.Logic.Framing
import Shitty.Http2.Logic.Receive
import Shitty.Http2.Theorems.Boundaries
import Shitty.Http2.Logic.Reads
import Shitty.Http2.Theorems.Segmentation
import Shitty.Http1.HTTP1
import Shitty.Http1.ServerTransport
import Shitty.Http1.Logic.Lines
import Shitty.Http1.Logic.Framing
import Shitty.Http1.Logic.Reads
import Shitty.Http1.Requests
import Shitty.Http1.Logic.Heads
import Shitty.Http1.Logic.Bodies
import Shitty.Http1.Theorems.Segmentation
import Shitty.Http1.Logic.Pipeline
import Shitty.Http1.Theorems.Responses
import Shitty.Hpack.Logic.Locality
import Shitty.Hpack.Theorems.Compositional
import Shitty.Hpack.Logic.Turns
import Shitty.Hpack.Theorems.Assertions
import Shitty.Hpack.Theorems.Bounds
import Shitty.Http2.Logic.Steps
import Shitty.Http2.Theorems.Settings
import Shitty.Http2.Theorems.Window
import Shitty.Net.Theorems.Wakeup
import Shitty.Server.Logic.Descriptors
import Shitty.Server.Logic.Dispatch
import Shitty.Server.Theorems.LifeCycle
import Shitty.Http1.ClientTransportSource
import Shitty.Proxy.ProxyHandler
import Shitty.Proxy.System
import Shitty.Http1.Logic.Pool
import Shitty.Proxy.Logic.Serving
import Shitty.Proxy.Logic.Steps
import Shitty.Proxy.Theorems.Lifetime
import Shitty.Proxy.Theorems.Order
import Shitty.Lib.Returns
import Shitty.Hpack.Theorems.Acceptance
import Shitty.Http2.Logic.Exceptions
import Shitty.Hpack.Theorems.Number
import Shitty.Hpack.Encoded
import Shitty.Hpack.Logic.OwnCoding
import Shitty.Hpack.Theorems.Strings
import Shitty.Hpack.Theorems.Cache
import Shitty.Http1.Theorems.Heads
import Shitty.Http1.Logic.World
import Shitty.Http1.Logic.Sent
import Shitty.Http1.Logic.Arrivals
import Shitty.Http1.Theorems.Closing
import Shitty.Http1.Theorems.Upgrades
import Shitty.Server.Clients
import Shitty.Server.Theorems.Selection
import Shitty.Http2.Logic.Overreads
import Shitty.Http2.Theorems.Overreads
import Shitty.Http2.Logic.Responses
import Shitty.Http2.Theorems.Responses
import Shitty.Server.Logic.Isolation
import Shitty.Server.Transports
import Shitty.Server.Theorems.Isolation
import Shitty.Hpack.Theorems.Indices
import Shitty.Hpack.Theorems.SizeUpdates
import Shitty.Http2.Theorems.StreamWindow
import Shitty.Http2.Theorems.Data
import Shitty.Http2.Theorems.SettingsPayload
import Shitty.Hpack.StringDecode
import Shitty.Hpack.Theorems.DecodedSize
import Shitty.Hpack.Theorems.EncodedSize
import Shitty.Hpack.Theorems.StringDecode
import Shitty.Lib.Checked
import Shitty.Hpack.Accesses
import Shitty.Hpack.Logic.Pointers
import Shitty.Hpack.Logic.Accesses
import Shitty.Hpack.Theorems.Totality
import Shitty.Core.Payload
import Shitty.Http2.Theorems.Headers
import Shitty.Http2.Theorems.HeadersFrame
import Shitty.Http1.Theorems.Bodies
import Shitty.Http1.Theorems.ContentLength
import Shitty.Http1.Theorems.Continuations
import Shitty.Http1.Theorems.HeaderLines
import Shitty.Http1.Theorems.Pool
import Shitty.Proxy.Theorems.Spares
import Shitty.Net.Theorems.Incoming
import Shitty.Hpack.Shifts
import Shitty.Hpack.Theorems.BitBuf
import Shitty.Core.Theorems.Trimming
import Shitty.Hpack.Theorems.Encode
import Shitty.Core.Date
import Shitty.Core.Theorems.Date
import Shitty.Core.Stream
import Shitty.Http1.ClientTransport
import Shitty.Http1.Logic.Messages
import Shitty.Http1.Logic.Parcels
import Shitty.Http1.Theorems.Delivery
import Shitty.Http1.Theorems.Relay
import Shitty.Http2.Logic.Replies
import Shitty.Http2.Theorems.Replies
import Shitty.Server.Logic.Alone
import Shitty.Server.Theorems.Alone
import Shitty.Core.HeaderTable
import Shitty.Core.Theorems.Headers
import Shitty.Server.Theorems.Apart
import Shitty.Server.Theorems.Requests
import Shitty.Server.Theorems.Exchange
import Shitty.Proxy.Theorems.Matching
import Shitty.Http1.Theorems.Handover
import Shitty.Server.Theorems.Handover
