import Gems.Abac.Enforce
import Gems.Subscribe.View
import Gems.Bitmap.Roaring
import Gems.Engine.Refine
import Gems.Engine.Rebuilt
import Gems.Engine.Bitmaps
import Gems.Raft.Engine
import Gems.Raft.Delivery
import Gems.Storage.Disjoint
import Gems.Index.Crash
import Gems.Gossip.Cluster
import Gems.Cluster.LogCrash
import Gems.Subscribe.History
import Gems.Cluster.Codecs
import Gems.Cluster.Replay
import Gems.Raft.Matched
import Gems.Index.Corrupt
import Gems.Engine.Pairing
import Gems.Cluster.Primary
import Gems.Tuid.Hex
import Gems.Gossip.Timers
import Gems.Subscribe.Tailer
import Gems.Catalog.Bodies
import Gems.Abac.Token
import Gems.Gossip.Piggyback
import Gems.Query.Depth
import Gems.Engine.Enforced
import Gems.Cluster.InStep
import Gems.Cluster.Convergence
import Gems.Frontend.Reads
import Gems.Frontend.Mediation
import Gems.Raft.Leaders
import Gems.Cluster.Replicated
import Gems.Cluster.Sharded
import Gems.Engine.Seeded
import Gems.Frontend.Granted
import Gems.Frontend.Tokens
import Gems.Frontend.Setup
import Gems.Frontend.Requests
import Gems.Cluster.Connections
import Gems.Frontend.Conversation
import Gems.Frontend.Browser
