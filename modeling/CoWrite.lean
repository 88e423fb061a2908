import CoWrite.Nm.Payload
import CoWrite.Nm.Persist
import CoWrite.Nm.Rpc
import CoWrite.Ss.Paths
import CoWrite.Ss.Server
import CoWrite.Ss.Session
import CoWrite.Lib.Chains
import CoWrite.Nm.FileTable
import CoWrite.Lib.Stock
import CoWrite.Nm.Access
import CoWrite.Nm.Connections
import CoWrite.Ss.Tickets
import CoWrite.Common.Flat
import CoWrite.Lib.Holders
import CoWrite.Ss.Locks
import CoWrite.Cluster.Registration
import CoWrite.Lib.Frames
import CoWrite.Ss.Wire
import CoWrite.Cluster.Tickets
import CoWrite.Nm.Placement
import CoWrite.Nm.Replication
import CoWrite.Nm.Worker
import CoWrite.Nm.Backups
import CoWrite.Ss.Net
import CoWrite.Ss.Receive
import CoWrite.Ss.Counts
import CoWrite.Ss.Table
import CoWrite.Nm.Saving
import CoWrite.Nm.Deletions
import CoWrite.Nm.Picks
import CoWrite.Ss.Reading
import CoWrite.Nm.Peers
import CoWrite.Cluster.Checkpoints
import CoWrite.Cluster.Handlers
import CoWrite.Cluster.Promotions
import CoWrite.Cluster.Orphans
import CoWrite.Cluster.Effects
import CoWrite.Cluster.Mirrors
import CoWrite.Cluster.MirrorJobs
import CoWrite.Cluster.MirrorRuns
import CoWrite.Ss.Shift
import CoWrite.Ss.Updates
import CoWrite.Cluster.Notices
import CoWrite.Lib.Channels
import CoWrite.Cluster.Updates
import CoWrite.Ss.Normal
import CoWrite.Ss.Merges
import CoWrite.Ss.Words
import CoWrite.Ss.Sessions
import CoWrite.Ss.Cleanup
import CoWrite.Ss.Atomic
import CoWrite.Lib.Disk
import CoWrite.Lib.Guarded
import CoWrite.Ss.Crash
import CoWrite.Nm.Pending
import CoWrite.Nm.Failover
import CoWrite.Cluster.Numbers
import CoWrite.Client.Requests
import CoWrite.Client.Recovery
import CoWrite.Client.Stream
import CoWrite.Cluster.Scripts
import CoWrite.Cluster.Creation
import CoWrite.Common.Arrays
import CoWrite.Common.Decoders
import CoWrite.Client.Input
import CoWrite.Client.Writing
import CoWrite.Client.Commands
import CoWrite.Client.Info
import CoWrite.Nm.Restarts
import CoWrite.Client.Reading
import CoWrite.Cluster.Authority
import CoWrite.Ss.Flags
import CoWrite.Ss.Convergence
