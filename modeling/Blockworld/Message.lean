/-
# Messages

A message travels between the main loop and the workers.  It owns its payload: a generated chunk, a
snapshot to mesh, a finished mesh.  Every message has a topic, and most are about one chunk.
-/
import Blockworld.Mesh
import Blockworld.Message.Topic

namespace Blockworld

/-- What is sent between the main loop and the workers. -/
inductive Message where
  /-- Generate the chunk at a position; urgent requests take the express lane. -/
  | chunkRequest (coords : ChunkPos) (urgent : Bool)
  /-- A generated chunk. -/
  | chunkResponse (chunk : Chunk)
  /-- Mesh a snapshot; urgent requests take the express lane. -/
  | meshRequest (snapshot : Snapshot) (urgent : Bool)
  /-- A finished mesh. -/
  | meshResponse (mesh : Mesh)
  /-- The viewer is in another chunk. -/
  | viewerMoved (viewer : ChunkPos)
  /-- Stop. -/
  | exit

namespace Message

/-- The kind of a message. -/
def topic : Message → Topic
  | chunkRequest _ _ => .chunkRequest
  | chunkResponse _ => .chunkResponse
  | meshRequest _ _ => .meshRequest
  | meshResponse _ => .meshResponse
  | viewerMoved _ => .viewerMoved
  | exit => .exit

/-- The chunk a request or response is about. -/
def coords? : Message → Option ChunkPos
  | chunkRequest coords _ => some coords
  | chunkResponse chunk => some chunk.position
  | meshRequest snapshot _ => some snapshot.coords
  | meshResponse mesh => some mesh.coords
  | viewerMoved _ | exit => none

/-- A copy of an event for another subscriber.  Other messages have a single receiver and are not
copied. -/
def copyOfEvent? : Message → Option Message
  | viewerMoved viewer => some (viewerMoved viewer)
  | exit => some exit
  | _ => none

/-- The topic of a message and, in parentheses, the position it is about. -/
def text (m : Message) : String :=
  let subject := match m with
    | viewerMoved viewer => some viewer
    | m => m.coords?
  match subject with
  | some c => s!"{m.topic.name}({c.text})"
  | none => m.topic.name

/-- **Exactly the events can be copied**, and a copy is the same message. -/
theorem copyOfEvent?_eq (m : Message) :
    m.copyOfEvent? = if m.topic.isEvent then some m else none := by cases m <;> rfl

/-- Every request and response is about a chunk. -/
theorem coords?_isSome_iff (m : Message) : m.coords?.isSome = !m.topic.isEvent := by
  cases m <;> rfl

end Message

end Blockworld
