/-
# Errors

An error is an answer that a caller is meant to handle: a configuration that is refused, a position
that cannot be edited, a message that has nobody to go to.  Breaches of contract are `Fault`s.  An
operation that can end in either way ends in a `Failure`.
-/
import Blockworld.Fault
import Blockworld.Point

namespace Blockworld

/-- Why a message could not be delivered. -/
inductive DeliveryError where
  /-- Nobody subscribes to the topic. -/
  | unsubscribed (topic : Topic)
  /-- The subscriber the message was meant for has hung up. -/
  | hungUp (topic : Topic)
  deriving DecidableEq, Repr

/-- The text of a delivery error. -/
def DeliveryError.text : DeliveryError → String
  | unsubscribed topic => s!"no worker subscribed to {topic.name}"
  | hungUp topic => s!"channel for {topic.name} disconnected"

/-- Why a configuration file could not be read. -/
inductive ReadError where
  | notFound
  | invalidUtf8
  deriving DecidableEq, Repr

/-- The text of a read error. -/
def ReadError.text : ReadError → String
  | notFound => "No such file or directory (os error 2)"
  | invalidUtf8 => "stream did not contain valid UTF-8"

/-- An answer that refuses an operation. -/
inductive Error where
  /-- A configuration value that cannot be run with. -/
  | config (detail : String)
  /-- A file that cannot be read. -/
  | io (cause : ReadError)
  /-- A configuration text that is not of the required form. -/
  | json
  /-- A message that was not delivered. -/
  | delivery (cause : DeliveryError)
  /-- An edit in a chunk that is not loaded. -/
  | notLoaded (chunk : ChunkPos)
  /-- An edit outside the vertical range. -/
  | outOfRange (position : Point)
  /-- A worker that did not end properly. -/
  | worker (detail : String)
  deriving DecidableEq, Repr

/-- The text of an error. -/
def Error.text : Error → String
  | config detail => s!"Config error: {detail}"
  | io cause => s!"IO error: {cause.text}"
  | json => "Config parse error"
  | delivery cause => s!"Dispatch error: {cause.text}"
  | notLoaded chunk => s!"Chunk {chunk.text} is not loaded"
  | outOfRange p =>
    s!"Position [{p.x.toInt}, {p.y.toInt}, {p.z.toInt}] is outside the world height range"
  | worker detail => s!"Worker error: {detail}"

/-- How an operation that does not succeed ends. -/
inductive Failure where
  /-- It answers with an error. -/
  | refused (error : Error)
  /-- It is aborted by a fault. -/
  | aborted (fault : Fault)
  deriving DecidableEq, Repr

end Blockworld
