import PeerDeploy.Base.Base64
import PeerDeploy.Base.Copies
import PeerDeploy.Base.Files
import PeerDeploy.Base.Json
import PeerDeploy.Base.LastWriter
import PeerDeploy.Base.Path
import PeerDeploy.Base.Pretty
import PeerDeploy.Base.Readers
import PeerDeploy.Base.Serde
import PeerDeploy.Base.Simulation
import PeerDeploy.Base.Slices
import PeerDeploy.Base.Sorting
import PeerDeploy.Base.Table
import PeerDeploy.Base.Text
import PeerDeploy.Base.Transition
import PeerDeploy.Base.Tree
import PeerDeploy.Broadcast.Delivery
import PeerDeploy.Broadcast.Maintain
import PeerDeploy.Broadcast.Pacing
import PeerDeploy.Broadcast.Pending
import PeerDeploy.Broadcast.Retire
import PeerDeploy.Cluster.Cancel
import PeerDeploy.Cluster.Dispatcher
import PeerDeploy.Cluster.Executor
import PeerDeploy.Cluster.Links
import PeerDeploy.Cluster.Network
import PeerDeploy.Cluster.Peers
import PeerDeploy.Cluster.SubmitTask
import PeerDeploy.Cluster.Sync
import PeerDeploy.Common.Command
import PeerDeploy.Common.Decoding
import PeerDeploy.Common.Job
import PeerDeploy.Common.JsonFile
import PeerDeploy.Common.Messages
import PeerDeploy.Common.Wire
import PeerDeploy.Deploy.Apply
import PeerDeploy.Deploy.Authentic
import PeerDeploy.Deploy.BinaryTarget
import PeerDeploy.Deploy.Handler
import PeerDeploy.Deploy.Headers
import PeerDeploy.Deploy.Invite
import PeerDeploy.Deploy.Newest
import PeerDeploy.Deploy.Node
import PeerDeploy.Deploy.Options
import PeerDeploy.Deploy.Owner
import PeerDeploy.Deploy.Platform
import PeerDeploy.Deploy.Push
import PeerDeploy.Deploy.Rejected
import PeerDeploy.Deploy.Replay
import PeerDeploy.Deploy.Restore
import PeerDeploy.Deploy.Retarget
import PeerDeploy.Deploy.Rollback
import PeerDeploy.Deploy.Spelling
import PeerDeploy.Deploy.State
import PeerDeploy.Deploy.StateFile
import PeerDeploy.Deploy.Upgrade
import PeerDeploy.Deploy.Versions
import PeerDeploy.Execution.Agent
import PeerDeploy.Execution.Lookups
import PeerDeploy.Execution.Memory
import PeerDeploy.Execution.Pinned
import PeerDeploy.Execution.Policy
import PeerDeploy.Execution.PreStage
import PeerDeploy.Execution.Requests
import PeerDeploy.Execution.Task
import PeerDeploy.Job.Artifacts
import PeerDeploy.Job.Available
import PeerDeploy.Job.Fresh
import PeerDeploy.Job.Life
import PeerDeploy.Job.Lifecycle
import PeerDeploy.Job.Listing
import PeerDeploy.Job.Manager
import PeerDeploy.Job.Merge
import PeerDeploy.Job.Processes
import PeerDeploy.Job.Records
import PeerDeploy.Job.Schedule
import PeerDeploy.Job.Snapshot
import PeerDeploy.Job.StoreFile
import PeerDeploy.Package.Confined
import PeerDeploy.Package.Inspect
import PeerDeploy.Package.RoundTrip
import PeerDeploy.Package.Unpack
import PeerDeploy.Storage.Chunks
import PeerDeploy.Storage.Collect
import PeerDeploy.Storage.Concurrent
import PeerDeploy.Storage.ContentStore
import PeerDeploy.Storage.CutOff
import PeerDeploy.Storage.Evict
import PeerDeploy.Storage.Exchange
import PeerDeploy.Storage.Serve
import PeerDeploy.Storage.Stale
import PeerDeploy.Storage.Transport
import PeerDeploy.Storage.Upload
import PeerDeploy.Supervisor.Accounting
import PeerDeploy.Supervisor.Gateway
import PeerDeploy.Supervisor.Health
import PeerDeploy.Supervisor.Limit
import PeerDeploy.Supervisor.Reconcile
import PeerDeploy.Supervisor.State
import PeerDeploy.Supervisor.Stop
import PeerDeploy.Web.LogStream
import PeerDeploy.Web.LogViews
import PeerDeploy.Web.Prometheus
import PeerDeploy.Web.Session
