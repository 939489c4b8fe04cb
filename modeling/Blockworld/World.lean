/-
# The world

A world is the set of loaded chunks and a vertical range: heights from 0 up to `height`.  It reads
as air outside the range and wherever no chunk is loaded.  For meshing, what lies above and below
the range is a chunk of open sky, while a chunk inside the range that is not loaded is unknown.

An edit answers with the chunks whose meshes it can change: the owner of the cell, then every loaded
chunk that shares a border face with the cell.

`surroundings` enumerates the positions in range of a centre, nearest first, and `trim`
drops every loaded chunk beyond that range; both measure by `ChunkPos.chebyshev`, the first
by construction.  The last section says what each operation does to the chunk found at a position.
-/
import Std.Data.TreeMap.Lemmas
import Blockworld.ChunkPos
import Blockworld.Error
import Blockworld.Snapshot

namespace Blockworld

/-! ## 1. Neighbouring positions -/

/-- A value per side, computed in the visiting order of the sides; the first fault decides. -/
def PerSide.tabulate {α : Type} (f : Side → Except Fault α) : Except Fault (PerSide α) := do
  let west ← f .west
  let east ← f .east
  let down ← f .down
  let up ← f .up
  let north ← f .north
  let south ← f .south
  return { north, south, east, west, up, down }

/-- The six adjacent positions. -/
def ChunkPos.neighbors (c : ChunkPos) : Except Fault (PerSide ChunkPos) :=
  PerSide.tabulate c.neighbor

/-! ## 2. Loaded chunks -/

/-- The loaded chunks and the vertical range. -/
structure World where
  chunks : Std.TreeMap ChunkPos Chunk
  /-- The first height above the range. -/
  height : Int32

namespace World

/-- A world without chunks. -/
def empty (height : Int32) : World := ⟨∅, height⟩

/-- The chunk that stands above and below the vertical range. -/
def sky : Chunk := Chunk.filled ChunkPos.zero Block.sky

/-- Whether a height is in the vertical range. -/
def inRange (w : World) (y : Int32) : Bool := decide (0 ≤ y) && decide (y < w.height)

/-- Whether the floor of a chunk is in the vertical range. -/
def hasFloor (w : World) (c : ChunkPos) : Bool := w.inRange c.y

/-- The chunk at a position. -/
def chunk? (w : World) (c : ChunkPos) : Option Chunk := w.chunks[c]?

/-- Whether a chunk is loaded at a position. -/
def contains (w : World) (c : ChunkPos) : Bool := w.chunks.contains c

/-- Loads a chunk at its position, in place of any chunk there. -/
def insert (w : World) (c : Chunk) : World := { w with chunks := w.chunks.insert c.position c }

/-- Unloads the chunk at a position. -/
def erase (w : World) (c : ChunkPos) : World := { w with chunks := w.chunks.erase c }

/-- The number of loaded chunks. -/
def size (w : World) : Nat := w.chunks.size

/-- The positions of the loaded chunks, in order. -/
def positions (w : World) : List ChunkPos := w.chunks.keys

/-- The loaded positions next to a position, in the visiting order of the sides. -/
def loadedBeside (w : World) (c : ChunkPos) : Except Fault (List ChunkPos) := do
  let around ← c.neighbors
  return (Side.all.map around.get).filter w.contains

/-! ## 3. Blocks -/

/-- The block at a point.  Points outside the vertical range or in a chunk that is not loaded read
as air. -/
def blockAt (w : World) (p : Point) : Block :=
  if w.inRange p.y then
    match w.chunk? (ChunkPos.owner p) with
    | some c => c.get (ChunkPos.place p)
    | none => Block.air
  else Block.air

/-- Writes the block at a point.  Answers with the chunks whose meshes may change: the owner, then
the loaded neighbours through the borders the cell lies on.

The adjacent positions are computed after the write, so a fault there leaves the cell changed. -/
def edit (w : World) (p : Point) (block : Block) :
    World × Except Failure (List ChunkPos) :=
  if w.inRange p.y then
    let owner := ChunkPos.owner p
    match w.chunk? owner with
    | none => (w, .error (.refused (.notLoaded owner)))
    | some c =>
      let cell := ChunkPos.place p
      match c.set cell block with
      | .error f => (w, .error (.aborted f))
      | .ok c =>
        let w := { w with chunks := w.chunks.insert owner c }
        match owner.neighbors with
        | .error f => (w, .error (.aborted f))
        | .ok around => (w, .ok (owner :: (cell.borders.map around.get).filter w.contains))
  else (w, .error (.refused (.outOfRange p)))

/-! ## 4. Snapshots -/

/-- What is known at a position next to a chunk: open sky outside the vertical range, else the
loaded chunk if there is one. -/
def seenAt (w : World) (c : ChunkPos) : Option Chunk :=
  if w.hasFloor c then w.chunk? c else some sky

/-- The snapshot of a loaded chunk; `none` if it is not loaded. -/
def snapshot? (w : World) (c : ChunkPos) : Except Fault (Option Snapshot) :=
  match w.chunk? c with
  | none => .ok none
  | some chunk => do
    let around ← c.neighbors
    return some ⟨c, chunk, .ofFn fun s => w.seenAt (around.get s)⟩

/-! ## 5. Ranges -/

/-- The lists of `n` consecutive numbers from `start` on, one after the other. -/
def sweep {α : Type} (f : Int32 → Except Fault (List α)) : Nat → Int → Except Fault (List α)
  | 0, _ => .ok []
  | n + 1, start => do
    let here ← f (Int32.ofInt start)
    let there ← sweep f n (start + 1)
    return here ++ there

/-- The position at an offset in chunks from a centre, if it is in the vertical range. -/
def candidate (w : World) (center : ChunkPos) (dx dy dz : Int32) :
    Except Fault (List ChunkPos) := do
  let rise ← checkedMul dy 16
  let y ← checkedAdd center.y rise
  let x ← checkedAdd center.x dx
  let z ← checkedAdd center.z dz
  let c ← ChunkPos.aligned? x y z
  return if w.hasFloor c then [c] else []

/-- Nearer to a centre, and at equal distance earlier in the order of positions. -/
def nearer (center a b : ChunkPos) : Bool :=
  match compare (a.squaredDistance center) (b.squaredDistance center) with
  | .lt => true
  | .gt => false
  | .eq => a.le b

/-- The positions at most `radius` chunks from a centre on every axis and in the vertical range,
nearest first. -/
def surroundings (w : World) (center : ChunkPos) (radius : Int32) :
    Except Fault (List ChunkPos) := do
  let low ← checkedNeg radius
  let span := (radius.toInt - low.toInt + 1).toNat
  let sweepAll (f : Int32 → Except Fault (List ChunkPos)) := sweep f span low.toInt
  let found ← sweepAll fun dz => sweepAll fun dy => sweepAll fun dx => w.candidate center dx dy dz
  return found.mergeSort (nearer center)

/-- Whether a position is more than `radius` chunks from a centre on some axis. -/
def isOutside (center : ChunkPos) (radius : Int32) (c : ChunkPos) : Bool :=
  decide (radius < c.chebyshev center)

/-- Unloads every chunk more than `radius` chunks from a centre and lists their positions in
order. -/
def trim (w : World) (center : ChunkPos) (radius : Int32) : World × List ChunkPos :=
  ({ w with chunks := w.chunks.filter fun c _ => !isOutside center radius c },
    w.positions.filter (isOutside center radius))

/-! ## 6. Which chunks are loaded -/

@[simp] theorem chunk?_empty (height : Int32) (c : ChunkPos) : (empty height).chunk? c = none := by
  simp [empty, chunk?]

/-- A chunk that is loaded is found at its own position; other positions keep their chunks. -/
theorem chunk?_insert (w : World) (chunk : Chunk) (c : ChunkPos) :
    (w.insert chunk).chunk? c = if chunk.position = c then some chunk else w.chunk? c := by
  simp [insert, chunk?, Std.TreeMap.getElem?_insert]

theorem chunk?_erase (w : World) (a c : ChunkPos) :
    (w.erase a).chunk? c = if a = c then none else w.chunk? c := by
  simp [erase, chunk?, Std.TreeMap.getElem?_erase]

theorem contains_eq_isSome (w : World) (c : ChunkPos) : w.contains c = (w.chunk? c).isSome := by
  simp [contains, chunk?]

/-- The listed positions are those of the loaded chunks. -/
theorem mem_positions (w : World) (c : ChunkPos) : c ∈ w.positions ↔ w.contains c := by
  simp [positions, contains]

/-- Trimming drops the chunks out of range and leaves every other one as it is. -/
theorem chunk?_trim (w : World) (center : ChunkPos) (radius : Int32) (c : ChunkPos) :
    (w.trim center radius).1.chunk? c = if isOutside center radius c then none else w.chunk? c := by
  unfold trim chunk?
  simp only [Std.TreeMap.getElem?_filter, Std.TreeMap.getKey_eq, Option.pfilter_eq_filter]
  cases h : isOutside center radius c with
  | true => simp
  | false => cases w.chunks[c]? <;> rfl

/-- **Trimming lists exactly the chunks that it drops.** -/
theorem mem_trim (w : World) (center : ChunkPos) (radius : Int32) (c : ChunkPos) :
    c ∈ (w.trim center radius).2 ↔ w.contains c ∧ isOutside center radius c := by
  simp [trim, mem_positions]

end World

end Blockworld
