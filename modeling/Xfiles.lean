import Xfiles.Lib.Transition
import Xfiles.Circuit.Runs
import Xfiles.Circuit.Probes
import Xfiles.Circuit.Requests
import Xfiles.Proxy.Lockout
import Xfiles.Proxy.Learning
import Xfiles.Proxy.Outcomes
import Xfiles.Queue.Pruning
import Xfiles.Net.Stranded
import Xfiles.Net.Teardown
import Xfiles.Net.Disconnect
import Xfiles.Net.StaleCleanup
import Xfiles.Quantum.Feedback
import Xfiles.Quantum.Persistence
import Xfiles.Router.Duplicates
import Xfiles.Http.RateLimit
import Xfiles.Fs.Isolation
import Xfiles.Fs.Listing
import Xfiles.Fs.Tree
import Xfiles.Quantum.Selector
import Xfiles.Quantum.Interference
import Xfiles.Quantum.Maintenance
import Xfiles.Queue.Accounting
import Xfiles.Router.EntryPoints
import Xfiles.Net.Protocol
import Xfiles.Store.ReadBack
import Xfiles.Store.Recency
import Xfiles.Ai.Probe
import Xfiles.Router.FieldLabels
import Xfiles.Router.Rules
import Xfiles.Router.QuantumMode
import Xfiles.Proxy.Forwarding
import Xfiles.Http.IdealRate
import Xfiles.Http.Overflow
import Xfiles.Http.Auth
import Xfiles.Fs.Children
import Xfiles.Fs.Canonical
import Xfiles.Router.McpIndex
import Xfiles.Net.ClientFrame
import Xfiles.Proxy.Streams
import Xfiles.Fs.Files
import Xfiles.Fs.Seed
import Xfiles.Net.Integrity
import Xfiles.Net.Forgotten
import Xfiles.Net.Session
import Xfiles.Ai.Fleet
import Xfiles.Http.Server
import Xfiles.Quantum.Isolation
import Xfiles.Store.Log
import Xfiles.Net.Messaging
import Xfiles.Ai.Unprobed
import Xfiles.Proxy.Upstreams
