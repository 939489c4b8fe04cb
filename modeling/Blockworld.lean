import Blockworld.Block
import Blockworld.Cell
import Blockworld.Checked
import Blockworld.Chunk
import Blockworld.ChunkPos
import Blockworld.ChunkPos.Basic
import Blockworld.Config
import Blockworld.Config.Reader
import Blockworld.Engine
import Blockworld.Error
import Blockworld.Fault
import Blockworld.JsonText.Token
import Blockworld.JsonText.Value
import Blockworld.Mesh
import Blockworld.Message
import Blockworld.Message.Topic
import Blockworld.Noise
import Blockworld.Patch
import Blockworld.Point
import Blockworld.Quad
import Blockworld.Queue
import Blockworld.Queue.Heap
import Blockworld.Service
import Blockworld.Side
import Blockworld.Slice
import Blockworld.Snapshot
import Blockworld.Switchboard
import Blockworld.Tabulate
import Blockworld.Terrain
import Blockworld.Walk
import Blockworld.Worker
import Blockworld.World
import Blockworld.Main
import Blockworld.Proofs.Known
import Blockworld.Proofs.Merge
import Blockworld.Proofs.Lift
import Blockworld.Proofs.Canonical
import Blockworld.Proofs.Faces
import Blockworld.Proofs.Corruption
import Blockworld.Proofs.Adjacency
import Blockworld.Proofs.Invalidation
import Blockworld.Proofs.Borders
import Blockworld.Proofs.BlockMap
import Blockworld.Proofs.Columns
import Blockworld.Proofs.Generation
import Blockworld.Proofs.Schedule
import Blockworld.Proofs.Backlog
import Blockworld.Proofs.Routing
import Blockworld.Proofs.Convergence
import Blockworld.Proofs.Crew
import Blockworld.Proofs.Interleavings
import Blockworld.Proofs.History
import Blockworld.Proofs.ServingOrder
import Blockworld.Proofs.Course
import Blockworld.Proofs.Record
import Blockworld.Proofs.Progress
import Blockworld.Proofs.Accounts
import Blockworld.Proofs.Replay
import Blockworld.Proofs.Range
import Blockworld.Proofs.Limits
import Blockworld.Proofs.Underway
import Blockworld.Proofs.Bookkeeping
import Blockworld.Proofs.Coverage
import Blockworld.Proofs.Sessions
import Blockworld.Proofs.Payloads
import Blockworld.Proofs.Places
import Blockworld.Proofs.Turns
import Blockworld.Proofs.Delivery
import Blockworld.Proofs.Scripts
import Blockworld.Proofs.Viewers
import Blockworld.Proofs.Broadcasts
import Blockworld.Proofs.Accesses
import Blockworld.Proofs.Areas
import Blockworld.Proofs.Casualties
import Blockworld.Proofs.Aftermath
import Blockworld.Proofs.Retries
import Blockworld.Proofs.Solids
import Blockworld.Proofs.Orientation
import Blockworld.Proofs.Policies
import Blockworld.Proofs.Enumeration
import Blockworld.Proofs.Shortcuts
import Blockworld.Proofs.Locating
import Blockworld.Proofs.Strata
import Blockworld.Proofs.Filling
import Blockworld.Proofs.Packing
import Blockworld.Proofs.Distances
import Blockworld.Proofs.Addresses
