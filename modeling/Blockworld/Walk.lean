/-
# A walk through a world

What the program does when it is run: it loads the world around the viewer, moves the viewer two
chunks along `x`, digs out the highest block of the column at the viewer's corner, and ends.  After
each of these it reports how much is loaded.

A walk leaves a log and an exit code: 0 at the end, 1 after an error, which is the last entry of the
log, and 101 when it is cut short by a fault.
-/
import Blockworld.Config.Reader
import Blockworld.Engine

namespace Blockworld

/-- How serious an entry of the log is. -/
inductive Severity where
  | info
  | error
  deriving DecidableEq, Repr

/-- The printed name of a severity. -/
def Severity.name : Severity → String
  | info => "INFO"
  | error => "ERROR"

/-- An entry of the log. -/
structure LogEntry where
  severity : Severity
  text : String
  deriving DecidableEq, Repr

/-- What a run leaves behind. -/
structure Transcript where
  log : List LogEntry
  exitCode : Nat
  deriving DecidableEq, Repr

/-- Where the configuration comes from. -/
inductive ConfigSource where
  /-- None is named: the defaults. -/
  | defaults
  /-- A file with its path, and with its content if it exists. -/
  | file (path : String) (content : Option ByteArray)

namespace Walk

/-- A part of a walk: it writes to the log and may fail. -/
abbrev WalkM (σ : Type) := ExceptT Failure (StateM (σ × List LogEntry))

variable {σ : Type}

/-- Adds an entry to the log. -/
def note (text : String) : WalkM σ Unit := modify fun (s, log) => (s, log ++ [⟨.info, text⟩])

/-- Lets the engine do something. -/
def act {α : Type} (op : EngineM α) : WalkM Engine α := do
  let (e, log) ← get
  match op.run e with
  | (.ok a, e) =>
    set (e, log)
    return a
  | (.error failure, e) =>
    set (e, log)
    throw failure

/-- Reports how much is loaded. -/
def report (stage : String) : WalkM Engine Unit := do
  let (e, _) ← get
  let loaded := s!"{e.world.size} chunks loaded"
  let drawn := s!"{e.meshes.size} meshes, {e.meshes.totalQuads} quads"
  note s!"{stage}: {loaded}, {drawn}"

/-- Moves the viewer to the chunk `step` places further along `x` from where it started. -/
def moveTo (start : ChunkPos) (step : Int32) : WalkM Engine Unit := do
  let target ← act <| Engine.orAbort do
    let x ← checkedAdd start.x step
    ChunkPos.aligned? x start.y start.z
  act (Engine.moveViewer target)
  act Engine.finishWork
  report "Viewer moved"

/-- The highest solid block below `height` in the column of a point. -/
def highestBelow (e : Engine) (p : Point) : Nat → Option Point
  | 0 => none
  | y + 1 =>
    let q := { p with y := Int32.ofNat y }
    if (e.blockAt q).isAir then highestBelow e p y else some q

/-- Digs out the highest block of the column at the corner of the viewer's chunk. -/
def dig : WalkM Engine Unit := do
  let (e, _) ← get
  let corner ← act (Engine.orAbort e.viewer.origin)
  match highestBelow e corner e.world.height.toInt.toNat with
  | none => return ()
  | some p =>
    let touched ← act (Engine.edit p Block.air)
    let place := s!"Point3 [{p.x.toInt}, {p.y.toInt}, {p.z.toInt}]"
    note s!"Dug block at {place}, {touched.length} chunk(s) invalidated"
    act Engine.finishWork
    report "Edit"

/-- The walk of an engine, from its start to its end. -/
def itinerary : WalkM Engine Unit := do
  let _ ← act Engine.requestInRange
  act Engine.finishWork
  report "Initial load"
  let (e, _) ← get
  let start := e.viewer
  moveTo start 1
  moveTo start 2
  dig
  let (e, _) ← get
  match e.shutdown with
  | .ok _ => return ()
  | .error cause => throw (.refused cause)

/-- The transcript of a run that ended with a result and a log. -/
def close (result : Except Failure Unit) (log : List LogEntry) : Transcript :=
  match result with
  | .ok () => ⟨log, 0⟩
  | .error (.refused cause) => ⟨log ++ [⟨.error, cause.text⟩], 1⟩
  | .error (.aborted _) => ⟨log, 101⟩

/-- Reads the configuration. -/
def configure (source : ConfigSource) : LogEntry × Except Error Config :=
  match source with
  | .defaults => (⟨.info, "Using default config"⟩, .ok {})
  | .file path content => (⟨.info, s!"Loading config from {path}"⟩, Config.load content)

/-- The walk that a configuration source leads to. -/
def run (source : ConfigSource) : Transcript :=
  let (entry, config) := configure source
  let log := [⟨.info, "Logger initialized"⟩, entry]
  match (config.mapError Failure.refused).bind Engine.start with
  | .error failure => close (.error failure) log
  | .ok e =>
    let (result, _, log) := itinerary.run (e, log)
    close result log

end Walk

end Blockworld
