import PerCoreShard.Filter.Conservation
import PerCoreShard.Filter.Mirror
import PerCoreShard.Filter.Streaming
import PerCoreShard.Filter.Watermark
import PerCoreShard.Net.Http.ChunkedCoding
import PerCoreShard.Net.Http.HeadReader
import PerCoreShard.Net.Http.Llhttp.Division
import PerCoreShard.Net.Http.Native.Interleaving
import PerCoreShard.Runtime.Connections
import PerCoreShard.Runtime.Startup
import PerCoreShard.Session.DefaultFilters
import PerCoreShard.Session.EndOfStream
import PerCoreShard.Session.FlowControl
import PerCoreShard.Session.Gating
import PerCoreShard.Session.HeldBack
import PerCoreShard.Session.Independence
import PerCoreShard.Session.KeepAlive
import PerCoreShard.Session.OneResponse
import PerCoreShard.Session.Prompt
import PerCoreShard.Session.Pulls
import PerCoreShard.Session.RawRelay
import PerCoreShard.Session.Refusal
import PerCoreShard.Session.RequestRelay
import PerCoreShard.Session.ResponseRelay
import PerCoreShard.Session.Retry
import PerCoreShard.Session.Upstream
import PerCoreShard.Upstream.ConnectFresh
import PerCoreShard.Upstream.Endpoints
import PerCoreShard.Upstream.Guarantees
import PerCoreShard.Util.CpuTopology
