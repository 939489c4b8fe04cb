/-
# Faults

A fault is a breach of the contract of an operation: a block code that names no material, an index
outside a chunk, a machine word that is too small for a result.  A fault aborts the computation
that meets it; it is never handled on the way.  Conditions that a caller is meant to handle are
`Error`s and live in `Blockworld.Error`.

Each constructor records the cause.  `Fault.text` is the only place that knows the wording.
-/
import Blockworld.ChunkPos.Basic
import Blockworld.Message.Topic

namespace Blockworld

/-- The arithmetic operations whose results are checked. -/
inductive Arithmetic where
  | add
  | subtract
  | multiply
  | negate
  deriving DecidableEq, Repr

/-- The word used in messages. -/
def Arithmetic.verb : Arithmetic → String
  | add => "add"
  | subtract => "subtract"
  | multiply => "multiply"
  | negate => "negate"

/-- The cause of an aborted computation. -/
inductive Fault where
  /-- A stored code names no material. -/
  | unknownBlockCode (code : UInt8)
  /-- A cell index outside the chunk. -/
  | cellOutOfRange (x y z : Nat)
  /-- A slice index outside the chunk. -/
  | layerOutOfRange (layer : Nat)
  /-- A cell index outside the slice. -/
  | layerCellOutOfRange (i j : Nat)
  /-- A chunk position whose height is not a chunk floor. -/
  | unalignedFloor (y : Int32)
  /-- A result outside the range of its machine word. -/
  | overflow (operation : Arithmetic)
  /-- A quad that is not flat along exactly one axis. -/
  | nonPlanar
  /-- A worker received a message on a topic it does not serve. -/
  | malformedMessage (worker : String) (topic : Topic)
  /-- A worker could not take the payload out of a message on its own topic. -/
  | cannotUnpack (worker : String) (message : String)
  /-- A queued position has no payload. -/
  | lostPayload
  /-- A channel with more room than can be addressed. -/
  | channelTooLarge
  /-- A worker whose name contains the null character. -/
  | nulInName (name : String)
  deriving DecidableEq, Repr

/-- Where the first null byte of a text stands, and all its bytes. -/
def nulText (text : String) : String :=
  let bytes := text.toUTF8.toList
  let shown := ", ".intercalate (bytes.map fun b => toString b.toNat)
  s!"NulError({bytes.idxOf 0}, [{shown}])"

/-- The text of a fault. -/
def Fault.text : Fault → String
  | unknownBlockCode code => s!"unknown block code {code}"
  | cellOutOfRange x y z => s!"chunk access out of range: ({x}, {y}, {z})"
  | layerOutOfRange layer => s!"layer {layer} out of range"
  | layerCellOutOfRange i j => s!"layer cell ({i}, {j}) out of range"
  | unalignedFloor y => s!"chunk y coordinate {y.toInt} is not a multiple of 16"
  | overflow operation => s!"attempt to {operation.verb} with overflow"
  | nonPlanar => "non-planar quad"
  | malformedMessage worker topic => s!"worker {worker} received malformed message on {topic.name}"
  | cannotUnpack worker message => s!"worker {worker} cannot unpack {message}"
  | lostPayload => "queued coordinates always have a pending payload"
  | channelTooLarge => "capacity overflow"
  | nulInName name => s!"thread name may not contain interior null bytes: {nulText name}"

end Blockworld
