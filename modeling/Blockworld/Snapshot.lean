/-
# Snapshots

A snapshot is all that meshing one chunk needs: the chunk, and for each side the chunk beyond it if
that one was known.  Snapshots are values; nothing done to a world later shows in them.

`Snapshot.beyond` is the single rule for what the cells of a slice look at through a side: the next
cell of the same chunk, or at the border the facing cell of the neighbour.  Where no neighbour is
known the boundary policy decides between open sky and nothing at all.
-/
import Blockworld.Chunk

namespace Blockworld

/-- What lies beyond the border of a chunk whose neighbour is not known. -/
inductive Boundary where
  /-- Nothing: no face is drawn against the unknown. -/
  | hidden
  /-- Lit air: every border face is drawn. -/
  | exposed
  deriving DecidableEq, Repr

/-- The name used in configuration. -/
def Boundary.name : Boundary → String
  | hidden => "hidden"
  | exposed => "exposed"

/-- A chunk with what is known of its six neighbours. -/
structure Snapshot where
  /-- The position the mesh will be filed under. -/
  coords : ChunkPos
  chunk : Chunk
  neighbors : PerSide (Option Chunk)

namespace Snapshot

/-- What the cells of a slice look at through a side, by their place in the slice. -/
def beyond (s : Snapshot) (policy : Boundary) (side : Side) (layer : Fin 16) :
    Fin 16 → Fin 16 → Option Block :=
  match side.step? layer with
  | some next => fun i j => some (s.chunk.get (Cell.ofFrame side.axis next i j))
  | none =>
    match s.neighbors.get side, policy with
    | some chunk, _ => fun i j => some (chunk.get (Cell.ofFrame side.axis side.opposite.border i j))
    | none, .exposed => fun _ _ => some Block.sky
    | none, .hidden => fun _ _ => none

/-- The number of known neighbours. -/
def knownNeighbors (s : Snapshot) : Nat := Side.all.countP fun side => (s.neighbors.get side).isSome

/-- A one-line summary. -/
def text (s : Snapshot) : String :=
  let c := s.coords
  let coords := s!"ChunkCoord \x7b x: {c.x.toInt}, y: {c.y.toInt}, z: {c.z.toInt} \x7d"
  s!"MeshRequest \x7b coords: {coords}, solid_count: {s.chunk.solids}, " ++
    s!"neighbors: {s.knownNeighbors} \x7d"

end Snapshot

end Blockworld
