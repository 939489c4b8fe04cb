/-
# Meshes of chunks

The mesh of a snapshot lists a quad for every patch of every slice: the sides in their visiting
order, for each side the layers from 0 to 15, and for each layer the patches in scan order.  Opaque
and translucent quads are then separated, each keeping that order.

Two shortcuts save work and change nothing: a chunk that counts no solid cell is not sliced at all,
and a slice without faces is not merged.

A `MeshTable` holds the finished meshes by position.  Meshes without quads are not kept: installing
one removes the entry.
-/
import Std.Data.TreeMap.Lemmas
import Blockworld.Patch

namespace Blockworld

/-! ## 1. Meshes -/

/-- The quads of a chunk, separated by drawing pass. -/
structure Mesh where
  coords : ChunkPos
  opaqueQuads : List Quad
  translucentQuads : List Quad
  deriving DecidableEq

namespace Mesh

/-- Whether there is anything to draw. -/
def hasQuads (m : Mesh) : Bool := !(m.opaqueQuads.isEmpty && m.translucentQuads.isEmpty)

/-- The number of quads. -/
def size (m : Mesh) : Nat := m.opaqueQuads.length + m.translucentQuads.length

/-- Separates quads by drawing pass, keeping their order. -/
def ofQuads (coords : ChunkPos) (quads : List Quad) : Mesh where
  coords := coords
  opaqueQuads := quads.filter (!·.isTranslucent)
  translucentQuads := quads.filter (·.isTranslucent)

end Mesh

/-! ## 2. Meshing -/

/-- The lists of the elements one after the other; the first fault decides. -/
def gather {α β : Type} (f : α → Except Fault (List β)) : List α → Except Fault (List β)
  | [] => .ok []
  | a :: rest => do
    let here ← f a
    let there ← gather f rest
    return here ++ there

/-- The quads of a slice. -/
def Slice.quads (s : Slice) : Except Fault (List Quad) := do
  let patches ← s.merge
  gather (fun p => (p.lift s.side s.layer.val).map ([·])) patches

namespace Snapshot

/-- The quads of one layer toward one side. -/
def sliceQuads (s : Snapshot) (policy : Boundary) (side : Side) (layer : Fin 16) :
    Except Fault (List Quad) := do
  let slice ← Slice.ofSnapshot s policy side layer
  if slice.isEmpty then return [] else slice.quads

/-- The quads of all layers of all sides. -/
def quads (s : Snapshot) (policy : Boundary) : Except Fault (List Quad) :=
  gather (fun side => gather (s.sliceQuads policy side) (List.finRange 16)) Side.all

/-- The mesh of a snapshot. -/
def mesh (s : Snapshot) (policy : Boundary) : Except Fault Mesh :=
  if s.chunk.isEmpty then .ok (Mesh.ofQuads s.coords [])
  else (s.quads policy).map (Mesh.ofQuads s.coords)

end Snapshot

/-! ## 3. Finished meshes -/

/-- The finished meshes by position. -/
structure MeshTable where
  entries : Std.TreeMap ChunkPos Mesh

namespace MeshTable

/-- No mesh. -/
def empty : MeshTable := ⟨∅⟩

/-- The mesh at a position. -/
def get? (t : MeshTable) (c : ChunkPos) : Option Mesh := t.entries[c]?

/-- Files a mesh under its position, or removes the entry there if there is nothing to draw. -/
def install (t : MeshTable) (m : Mesh) : MeshTable :=
  if m.hasQuads then ⟨t.entries.insert m.coords m⟩ else ⟨t.entries.erase m.coords⟩

/-- Removes the mesh at a position. -/
def erase (t : MeshTable) (c : ChunkPos) : MeshTable := ⟨t.entries.erase c⟩

/-- The number of meshes. -/
def size (t : MeshTable) : Nat := t.entries.size

/-- The meshes in the order of their positions. -/
def toList (t : MeshTable) : List Mesh := t.entries.values

/-- The number of quads of all meshes. -/
def totalQuads (t : MeshTable) : Nat := (t.toList.map Mesh.size).foldl (· + ·) 0

/-- The packed quads of the opaque pass at a position. -/
def opaqueBytes (t : MeshTable) (c : ChunkPos) : List UInt8 :=
  match t.get? c with
  | some m => Quad.packAll m.opaqueQuads
  | none => []

/-- The packed quads of the translucent pass at a position. -/
def translucentBytes (t : MeshTable) (c : ChunkPos) : List UInt8 :=
  match t.get? c with
  | some m => Quad.packAll m.translucentQuads
  | none => []

/-- **After a mesh is installed its position holds that mesh, or nothing if there is nothing to
draw.**  Other positions keep their meshes. -/
theorem get?_install (t : MeshTable) (m : Mesh) (c : ChunkPos) :
    (t.install m).get? c =
      if m.coords = c then (if m.hasQuads then some m else none) else t.get? c := by
  unfold install get?
  split <;> simp [Std.TreeMap.getElem?_insert, Std.TreeMap.getElem?_erase]

theorem get?_erase (t : MeshTable) (a c : ChunkPos) :
    (t.erase a).get? c = if a = c then none else t.get? c := by
  simp [erase, get?, Std.TreeMap.getElem?_erase]

end MeshTable

end Blockworld
