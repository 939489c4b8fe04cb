/-
# Services

A service is what a worker does with the requests of one topic: it takes a submission out of a
request, and later turns the submission into a response.  A `Job` names one of the services that
workers are started with; `Job.Request` is the payload it queues.

A service answers by the request alone.  A worker can also run a `StatefulService`, which keeps a
memory of the requests it has processed: its answers may depend on it, and so may what it takes for
a request.
-/
import Blockworld.Message
import Blockworld.Terrain

namespace Blockworld

/-- Work taken out of a request. -/
structure Submission (ρ : Type) where
  /-- The chunk the work is about. -/
  coords : ChunkPos
  request : ρ
  /-- Whether the work takes the express lane. -/
  urgent : Bool

/-- What a worker does with the requests of one topic. -/
structure Service (ρ : Type) where
  /-- The topic of the requests. -/
  topic : Topic
  /-- The work in a message; `none` if the message is no request of this service. -/
  unpack : Message → Option (Submission ρ)
  /-- Does the work for a chunk and answers with the response. -/
  process : ChunkPos → ρ → Except Fault Message

/-- What a worker with a memory does with the requests of one topic. -/
structure StatefulService (μ ρ : Type) where
  /-- The topic of the requests. -/
  topic : μ → Topic
  /-- The work in a message; `none` if the message is no request of this service. -/
  unpack : μ → Message → Option (Submission ρ)
  /-- Does the work for a chunk.  Answers with the response and with the memory afterwards. -/
  process : μ → ChunkPos → ρ → Except Fault (Message × μ)

/-- The service as it is with some memory. -/
def StatefulService.given {μ ρ : Type} (s : StatefulService μ ρ) (memory : μ) : Service ρ where
  topic := s.topic memory
  unpack := s.unpack memory
  process coords request := (s.process memory coords request).map Prod.fst

/-- A service that has nothing to remember. -/
def Service.stateful {ρ : Type} (s : Service ρ) : StatefulService Unit ρ where
  topic _ := s.topic
  unpack _ := s.unpack
  process memory coords request := (s.process coords request).map (·, memory)

/-- The kinds of work that workers are started with. -/
inductive Job where
  /-- Generate chunks of a terrain. -/
  | generate (terrain : Terrain)
  /-- Mesh snapshots under a boundary policy. -/
  | mesh (policy : Boundary)
  /-- Answer every chunk request with the same request, to test the wiring. -/
  | relay

namespace Job

/-- The payload queued for a job. -/
def Request : Job → Type
  | generate _ => Unit
  | mesh _ => Snapshot
  | relay => Bool

/-- Generates the chunk a request asks for. -/
def generateService (terrain : Terrain) : Service Unit where
  topic := .chunkRequest
  unpack
    | .chunkRequest coords urgent => some ⟨coords, (), urgent⟩
    | _ => none
  process coords _ := (terrain.generate coords).map .chunkResponse

/-- Meshes the snapshot in a request. -/
def meshService (policy : Boundary) : Service Snapshot where
  topic := .meshRequest
  unpack
    | .meshRequest snapshot urgent => some ⟨snapshot.coords, snapshot, urgent⟩
    | _ => none
  process _ snapshot := (snapshot.mesh policy).map .meshResponse

/-- Answers a chunk request with itself. -/
def relayService : Service Bool where
  topic := .chunkRequest
  unpack
    | .chunkRequest coords urgent => some ⟨coords, urgent, urgent⟩
    | _ => none
  process coords urgent := .ok (.chunkRequest coords urgent)

/-- The service of a job. -/
def service : (j : Job) → Service j.Request
  | generate terrain => generateService terrain
  | mesh policy => meshService policy
  | relay => relayService

end Job

end Blockworld
