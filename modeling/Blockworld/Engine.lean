/-
# The engine

The engine keeps a world loaded around a viewer.  It owns the chunks and the finished meshes, and
asks workers for everything that takes time:

* chunks in range that are neither loaded nor asked for are requested, nearest first;
* a generated chunk is inserted, and it and its loaded neighbours are meshed;
* a finished mesh is filed, unless its chunk is gone;
* an edit has its owner and every chunk it touches meshed again, ahead of other work;
* when the viewer moves, chunks out of range are dropped with their meshes, and the chunks next to
  them are meshed again.

Operations act on the state step by step.  One that fails leaves behind what it had done so far: the
failure does not undo anything.
-/
import Std.Data.TreeSet.Basic
import Blockworld.Config
import Blockworld.Switchboard
import Blockworld.World

namespace Blockworld

/-! ## 1. State -/

/-- The state of the main loop. -/
structure Engine where
  config : Config
  world : World
  meshes : MeshTable
  /-- The chunk the viewer is in. -/
  viewer : ChunkPos
  /-- The chunks that are asked for and have not arrived. -/
  pending : Std.TreeSet ChunkPos
  board : Switchboard

/-- An operation of the engine: it may fail, and the state it leaves is kept in any case. -/
abbrev EngineM := ExceptT Failure (StateM Engine)

namespace Engine

/-- How the workers of a configuration schedule their requests. -/
def scheduling (config : Config) : Scheduling :=
  ⟨config.viewer, config.onDuplicate, config.ending⟩

/-- The terrain of a configuration. -/
def terrain (config : Config) : Terrain :=
  .ofSeed config.generation config.seed config.seaLevel

/-- Adds `count` workers of one job, numbered from `first`. -/
def spawnWorkers (label : String) (job : Job) (scheduling : Scheduling) (first : Nat) :
    Nat → Switchboard → Except Fault Switchboard
  | 0, b => .ok b
  | count + 1, b =>
    match b.spawn s!"{label}-{first}" job scheduling with
    | .error f => .error f
    | .ok b => spawnWorkers label job scheduling (first + 1) count b

/-- The workers of a configuration: those that generate chunks, then those that mesh. -/
def crew (config : Config) : Except Fault Switchboard :=
  match spawnWorkers "chunk-gen" (.generate (terrain config)) (scheduling config) 0
      config.chunkWorkers (.empty config.channelCapacity) with
  | .error f => .error f
  | .ok b =>
    spawnWorkers "mesh-gen" (.mesh config.boundary) (scheduling config) 0 config.meshWorkers b

/-- An engine with nothing loaded. -/
def ofCrew (config : Config) (board : Switchboard) : Engine where
  config := config
  world := .empty config.worldHeight
  meshes := .empty
  viewer := config.viewer
  pending := ∅
  board := board

/-- Starts an engine, if its configuration can be run with. -/
def start (config : Config) : Except Failure Engine :=
  match config.validate with
  | .error cause => .error (.refused cause)
  | .ok () =>
    match crew config with
    | .error f => .error (.aborted f)
    | .ok board => .ok (ofCrew config board)

/-! ## 2. Parts of operations -/

/-- Ends the operation if a computation faults. -/
def orAbort {α : Type} : Except Fault α → EngineM α
  | .ok a => return a
  | .error f => throw (.aborted f)

/-- Publishes a message. -/
def publish (m : Message) : EngineM Unit := do
  let e ← get
  let (board, result) := e.board.publish m
  set { e with board := board }
  match result with
  | .ok () => return ()
  | .error cause => throw (.refused (.delivery cause))

/-- Asks for the mesh of a chunk as it is now.  A chunk that is not loaded needs none. -/
def remesh (urgent : Bool) (c : ChunkPos) : EngineM Unit := do
  let e ← get
  match ← orAbort (e.world.snapshot? c) with
  | some snapshot => publish (.meshRequest snapshot urgent)
  | none => return ()

/-- Does something for each element of a list, up to the first failure. -/
def forEach {α : Type} (f : α → EngineM Unit) : List α → EngineM Unit
  | [] => return ()
  | a :: rest => do
    f a
    forEach f rest

/-- Asks for the chunks of a list that are neither loaded nor asked for, and counts them. -/
def requestMissing : List ChunkPos → EngineM Nat
  | [] => return 0
  | c :: rest => do
    let e ← get
    if e.world.contains c || e.pending.contains c then requestMissing rest
    else
      publish (.chunkRequest c false)
      modify fun e => { e with pending := e.pending.insert c }
      let n ← requestMissing rest
      return n + 1

/-! ## 3. Operations -/

/-- Asks for every chunk in range that is neither loaded nor asked for, nearest first, and counts
them. -/
def requestInRange : EngineM Nat := do
  let e ← get
  let wanted ← orAbort (e.world.surroundings e.viewer e.config.renderDistance)
  requestMissing wanted

/-- Drops the mesh of an unloaded chunk and adds its loaded neighbours to the chunks whose border
has changed. -/
def collectBorder : List ChunkPos → Std.TreeSet ChunkPos → EngineM (Std.TreeSet ChunkPos)
  | [], border => return border
  | c :: rest, border => do
    modify fun e => { e with meshes := e.meshes.erase c }
    let e ← get
    let neighbors ← orAbort (e.world.loadedBeside c)
    collectBorder rest (neighbors.foldl (·.insert ·) border)

/-- Moves the viewer to another chunk.  Nothing happens if the viewer is there already. -/
def moveViewer (viewer : ChunkPos) : EngineM Unit := do
  let e ← get
  if viewer = e.viewer then return ()
  else
    modify fun e => { e with viewer := viewer }
    publish (.viewerMoved viewer)
    let e ← get
    let (world, gone) := e.world.trim viewer e.config.renderDistance
    set { e with world := world }
    let border ← collectBorder gone ∅
    forEach (remesh false) border.toList
    modify fun e =>
      { e with pending := e.pending.filter (!World.isOutside viewer e.config.renderDistance ·) }
    let _ ← requestInRange
    return ()

/-- Writes a block and has the chunks it touches meshed again, ahead of other work.  Answers with
those chunks. -/
def edit (p : Point) (block : Block) : EngineM (List ChunkPos) := do
  let e ← get
  let (world, result) := e.world.edit p block
  set { e with world := world }
  match result with
  | .error failure => throw failure
  | .ok touched =>
    forEach (remesh true) touched
    return touched

/-- The block at a point. -/
def blockAt (e : Engine) (p : Point) : Block := e.world.blockAt p

/-- Inserts a generated chunk and has it and its loaded neighbours meshed.  A chunk that is out of
range by now, or loaded already, is dropped. -/
def acceptChunk (chunk : Chunk) : EngineM Unit := do
  let c := chunk.position
  modify fun e => { e with pending := e.pending.erase c }
  let e ← get
  if World.isOutside e.viewer e.config.renderDistance c || e.world.contains c then return ()
  else
    modify fun e => { e with world := e.world.insert chunk }
    remesh false c
    let e ← get
    let neighbors ← orAbort (e.world.loadedBeside c)
    forEach (remesh false) neighbors

/-- Files a finished mesh, unless its chunk is gone. -/
def acceptMesh (mesh : Mesh) : EngineM Unit :=
  modify fun e =>
    if e.world.contains mesh.coords then { e with meshes := e.meshes.install mesh } else e

/-- Handles a response.  Messages of other kinds are passed over. -/
def accept : Message → EngineM Unit
  | .chunkResponse chunk => acceptChunk chunk
  | .meshResponse mesh => acceptMesh mesh
  | _ => return ()

/-- Takes the oldest response out of the inbox and handles it.  Answers whether there was one. -/
def handleNext : EngineM Bool := do
  let e ← get
  match e.board.takeResponse with
  | (none, _) => return false
  | (some m, board) =>
    set { e with board := board }
    accept m
    return true

/-- Handles at most `fuel` responses and counts them. -/
def handleUpTo : Nat → EngineM Nat
  | 0 => return 0
  | fuel + 1 => do
    if ← handleNext then
      let n ← handleUpTo fuel
      return n + 1
    else return 0

/-- Handles every response that has arrived, and counts them.  Handling one adds none. -/
def handleArrived : EngineM Nat := do
  let e ← get
  handleUpTo e.board.responses.length

/-- Lets the workers finish what they have and handles what they send. -/
def round : EngineM Nat := do
  modify fun e => { e with board := e.board.runWorkers }
  handleArrived

/-- Brings all work to an end: a first round inserts the chunks that were asked for, and a second
one files the meshes. -/
def finishWork : EngineM Unit := do
  let _ ← round
  let _ ← round
  return ()

/-- Ends every worker. -/
def shutdown (e : Engine) : Except Error (List Tally) := e.board.shutdown

/-! ## 4. Interleavings -/

/-- A step of the main loop or of a worker. -/
inductive Action where
  | load
  | moveViewer (viewer : ChunkPos)
  | edit (position : Point) (block : Block)
  | handleNext
  /-- The worker on a channel receives its oldest message. -/
  | receive (channel : Nat)
  /-- The worker on a channel processes its next request. -/
  | process (channel : Nat)
  /-- The worker on a channel sends the response it holds. -/
  | deliver (channel : Nat)

/-- Runs an operation and tells how it ended. -/
def outcome {α : Type} (op : EngineM α) (e : Engine) : Engine × Except Failure Unit :=
  match op.run e with
  | (.ok _, e) => (e, .ok ())
  | (.error failure, e) => (e, .error failure)

/-- The state after a step, and how the step ended.  Steps of workers always succeed: a fault in one
stops that worker only. -/
def step (e : Engine) : Action → Engine × Except Failure Unit
  | .load => outcome requestInRange e
  | .moveViewer viewer => outcome (Engine.moveViewer viewer) e
  | .edit p block => outcome (Engine.edit p block) e
  | .handleNext => outcome Engine.handleNext e
  | .receive i => ({ e with board := e.board.advance i Channel.receive }, .ok ())
  | .process i => ({ e with board := e.board.advance i Channel.process }, .ok ())
  | .deliver i => ({ e with board := e.board.advance i Channel.deliver }, .ok ())

end Engine

end Blockworld
