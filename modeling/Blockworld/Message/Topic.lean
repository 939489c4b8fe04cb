/-
# Topics

A topic is the kind of a message and the only thing the switchboard looks at when it routes one.
The three classes below partition the topics (`class_exclusive`): a request goes to one
subscriber, an event to every subscriber, a response to the main inbox.
-/

namespace Blockworld

/-- The kind of a message. -/
inductive Topic where
  /-- Generate the chunk at some position. -/
  | chunkRequest
  /-- A generated chunk. -/
  | chunkResponse
  /-- Mesh a snapshot. -/
  | meshRequest
  /-- A finished mesh. -/
  | meshResponse
  /-- The viewer is in another chunk. -/
  | viewerMoved
  /-- Stop. -/
  | exit
  deriving DecidableEq, Repr

namespace Topic

/-- All topics in declared order. -/
def all : List Topic :=
  [chunkRequest, chunkResponse, meshRequest, meshResponse, viewerMoved, exit]

/-- The printed name of a topic. -/
def name : Topic → String
  | chunkRequest => "CHUNK_GEN_REQUEST"
  | chunkResponse => "CHUNK_GEN_RESPONSE"
  | meshRequest => "MESH_GEN_REQUEST"
  | meshResponse => "MESH_GEN_RESPONSE"
  | viewerMoved => "EVENT_PLAYER_MOVED_CHUNKS"
  | exit => "EXIT"

/-- Requests go to exactly one subscriber. -/
def isRequest : Topic → Bool
  | chunkRequest | meshRequest => true
  | _ => false

/-- Events go to every subscriber. -/
def isEvent : Topic → Bool
  | viewerMoved | exit => true
  | _ => false

/-- Responses go to the main inbox. -/
def isResponse : Topic → Bool
  | chunkResponse | meshResponse => true
  | _ => false

/-- The topic with the given printed name. -/
def ofName? (text : String) : Option Topic := all.find? (·.name == text)

/-- **Every topic is in exactly one class.** -/
theorem class_exclusive (t : Topic) :
    (t.isRequest && !t.isEvent && !t.isResponse) ||
    (!t.isRequest && t.isEvent && !t.isResponse) ||
    (!t.isRequest && !t.isEvent && t.isResponse) := by cases t <;> rfl

theorem ofName?_name (t : Topic) : ofName? t.name = some t := by cases t <;> decide

end Topic

end Blockworld
