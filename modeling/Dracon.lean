import Dracon.Certbot.Challenges
import Dracon.Certbot.EnableHttps
import Dracon.Certbot.Files
import Dracon.Http.BodyGrammar
import Dracon.Http.BodyLimit
import Dracon.Http.BodyRefinement
import Dracon.Http.Chars
import Dracon.Http.ChunkDecoder
import Dracon.Http.ChunkGrammar
import Dracon.Http.ChunkLimits
import Dracon.Http.ChunkedStream
import Dracon.Http.Expect
import Dracon.Http.Framing
import Dracon.Http.Grammar
import Dracon.Http.HeadAcceptance
import Dracon.Http.HeadGrammar
import Dracon.Http.HeadLimits
import Dracon.Http.HeadMeaning
import Dracon.Http.HeadRefinement
import Dracon.Http.Message
import Dracon.Http.Parser
import Dracon.Http.Refeed
import Dracon.Http.ResponseClient
import Dracon.Http.ResponseStream
import Dracon.Http.ResponseText
import Dracon.Http.Segmentation
import Dracon.Http.SizedCounter
import Dracon.Http.Url
import Dracon.Restful.Dispatch
import Dracon.Restful.Handlers
import Dracon.Restful.Queries
import Dracon.Restful.Registration
import Dracon.Restful.Router
import Dracon.Server.Balancing
import Dracon.Server.Connections
import Dracon.Server.Custody
import Dracon.Server.Deadlines
import Dracon.Server.DispatchOrder
import Dracon.Server.Lifetime
import Dracon.Server.Plugins
import Dracon.Server.Reuse
import Dracon.Server.SessionsEventLoop
import Dracon.Server.Shutdown
import Dracon.Server.Startup
import Dracon.Server.Status
import Dracon.Server.Timeouts
import Dracon.Server.Wakeups
import Dracon.Session.Connection
import Dracon.Session.Errors
import Dracon.Session.EventLoop
import Dracon.Session.Pipelining
import Dracon.Session.Quitting
import Dracon.Session.Reentry
import Dracon.Session.ShutdownResponse
import Dracon.Session.VectoredWrite
import Dracon.Shared.Backtracking
import Dracon.Shared.Bisection
import Dracon.Shared.Cut
import Dracon.Shared.FileTree
import Dracon.Shared.FileWrites
import Dracon.Shared.Lines
import Dracon.Shared.Outcomes
import Dracon.Shared.Path
import Dracon.Shared.Pieces
import Dracon.Shared.Potential
import Dracon.Shared.Recency
import Dracon.Shared.Sections
import Dracon.Shared.StepSystem
import Dracon.Shared.StreamMachine
import Dracon.StaticContent.Download
import Dracon.StaticContent.FileCache
import Dracon.StaticContent.Filesystem
import Dracon.StaticContent.Lexical
import Dracon.StaticContent.Plugin
import Dracon.StaticContent.Symlinks
import Dracon.StaticContent.UserDirs
import Dracon.Template.Devices
import Dracon.Template.Service
import Dracon.Utils.CharBuffer
import Dracon.Utils.FormEncoding
import Dracon.Utils.LruCache
import Dracon.Utils.OstreamBuffer
import Dracon.Utils.SimpleTimer
import Dracon.Utils.SpinLock
import Dracon.Workers.ThreadWorker
