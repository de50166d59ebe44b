import Hss.Server.Registry
import Hss.Http.Acceptance
import Hss.Server.PartialContent
import Hss.Server.ReadLoop
import Hss.Server.Session
import Hss.Server.Leak
import Hss.Server.Segments
import Hss.Server.Edge
import Hss.Server.Sending
import Hss.Http.Reads
import Hss.Server.TlsConnection
import Hss.Lib.Lines
import Hss.Http.Encoding
import Hss.Http.ContentLength
import Hss.Http.HeaderBlock
import Hss.Server.Splitting
import Hss.Server.MainLoop
import Hss.Server.Teardown
import Hss.Server.Privilege
import Hss.Lib.Path
import Hss.Server.Confinement
import Hss.Server.PrivateKey
import Hss.Http.Independence
import Hss.Http.Lookup
import Hss.Http.Finished
import Hss.Http.Building
import Hss.Server.EmptyFile
import Hss.Http.Merging
import Hss.Http.Saturation
import Hss.Http.MalformedRange
import Hss.Http.RangeText
import Hss.Server.Url
import Hss.Server.FileLookup
import Hss.Server.AuthorizationCode
import Hss.Server.Authorization
import Hss.Server.Address
import Hss.Server.Redirect
import Hss.Http.StatusDescription
import Hss.Server.Credential
import Hss.Server.WorkingDirectory
import Hss.Lib.Messages
import Hss.Http.Client
import Hss.Server.Conversation
import Hss.Lib.Runs
import Hss.Server.Batch
import Hss.Lib.Heap
import Hss.Http.HeaderHeap
import Hss.Lib.Simulation
import Hss.Http.RequestHeap
import Hss.Http.ResponseHeap
import Hss.Lib.Components
import Hss.Server.Isolation
import Hss.Server.TransactionHeap
import Hss.Server.ReceiveHeap
import Hss.Server.ConnectionHeap
import Hss.Lib.Ownership
import Hss.Server.SharedHeap
import Hss.Server.ContentRange
import Hss.Server.Relevance
import Hss.Server.Sockets
import Hss.Server.Polling
