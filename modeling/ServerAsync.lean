import ServerAsync.Misc.PipelineRuns
import ServerAsync.Relay
import ServerAsync.Http
import ServerAsync.Copier
import ServerAsync.CopierInvariant
import ServerAsync.SocketCopier
import ServerAsync.HandlerFile
import ServerAsync.HttpCopier
import ServerAsync.HttpSession
import ServerAsync.SessionCore
import ServerAsync.Misc.PipelineHistory
import ServerAsync.SessionRuns
import ServerAsync.SessionQueue
import ServerAsync.SessionFrame
import ServerAsync.SessionLifetime
import ServerAsync.SessionHandOff
import ServerAsync.SessionCopiers
import ServerAsync.Misc.Framing
import ServerAsync.SessionSync
import ServerAsync.SessionDesync
import ServerAsync.HttpUri
import ServerAsync.ProxyRequests
import ServerAsync.BodyFraming
import ServerAsync.HalfClose
import ServerAsync.RequestText
import ServerAsync.TcpConnection
import ServerAsync.TcpPassThrough
import ServerAsync.TcpDebug
import ServerAsync.Misc.ResultMap
import ServerAsync.TaskQueue
import ServerAsync.TaskResults
import ServerAsync.TaskResultMap
import ServerAsync.ClientSession
import ServerAsync.Misc.FileStore
import ServerAsync.Uploads
import ServerAsync.HttpServer
import ServerAsync.ServerThreads
import ServerAsync.SshServer
import ServerAsync.ReverseProxy
import ServerAsync.Misc.Path
import ServerAsync.PathContainment
import ServerAsync.Misc.Json
import ServerAsync.JsonUtil
import ServerAsync.Models
import ServerAsync.BoostRelay
import ServerAsync.ConnectAuthority
import ServerAsync.Handlers
import ServerAsync.WebsocketSession
import ServerAsync.RelayData
import ServerAsync.RelayUrl
import ServerAsync.Misc.Serializer
import ServerAsync.WriteOstream
import ServerAsync.Misc.JsonLayout
import ServerAsync.PrettyLayout
import ServerAsync.Misc.Numeral
import ServerAsync.ContentLength
import ServerAsync.Misc.Hosting
import ServerAsync.ServerSessions
import ServerAsync.SslSession
import ServerAsync.TcpServer
import ServerAsync.SessionAnswer
import ServerAsync.Exchange
import ServerAsync.ExchangeProgress
import ServerAsync.RelayLimits
import ServerAsync.ResponseFraming
import ServerAsync.ReverseProxyRuns
import ServerAsync.ProxyServer
import ServerAsync.Misc.Wiring
import ServerAsync.HttpConnection
import ServerAsync.RelayPath
import ServerAsync.Misc.PipelineOutput
import ServerAsync.OriginAnswers
import ServerAsync.ClientPool
import ServerAsync.Misc.Delivery
import ServerAsync.RelayProgress
import ServerAsync.RelayDelivery
import ServerAsync.OriginDelivery
import ServerAsync.SessionBodies
import ServerAsync.FileServer
import ServerAsync.UploadRuns
import ServerAsync.UploadReadBack
