/-
# Adjacent chunks and what a mesh reads of them

A mesh of a chunk reads the chunk itself and one layer of each neighbour: the layer of the border
cells that face the chunk.  So two worlds that agree on the chunk and on these six layers have the
same mesh there (`World.freshMesh_congr`), and everything that is proved about which meshes an
operation can change goes through this one lemma.

Being adjacent is symmetric (`ChunkPos.neighbor_opposite`): the chunk behind a side has this chunk
behind the opposite side.  Both come out of `ChunkPos.neighbor_eq_ok_iff`, which says which position
is the neighbour and leaves the checked additions behind.
-/
import Blockworld.Mesh
import Blockworld.World
import Blockworld.Proofs.Known

namespace Blockworld

/-! ## 1. Tables of the sides -/

/-- **A table of the sides exists exactly if every entry does**, and then holds the entries. -/
theorem PerSide.tabulate_eq_ok_iff {α : Type} {f : Side → Except Fault α} {p : PerSide α} :
    PerSide.tabulate f = .ok p ↔ ∀ s, f s = .ok (p.get s) := by
  constructor
  · intro h
    simp only [PerSide.tabulate, bind_eq_ok_iff] at h
    obtain ⟨west, hw, east, he, down, hd, up, hu, north, hn, south, hs, hp⟩ := h
    cases hp
    intro s
    cases s
    · exact hn
    · exact hs
    · exact he
    · exact hw
    · exact hu
    · exact hd
  · intro h
    simp only [PerSide.tabulate, bind_eq_ok_iff]
    exact ⟨_, h .west, _, h .east, _, h .down, _, h .up, _, h .north, _, h .south, rfl⟩

/-! ## 2. Positions -/

namespace ChunkPos

/-- **The neighbour is one step away**: one index along `x` and `z`, and a chunk's height along
`y`. -/
theorem neighbor_eq_ok_iff {c n : ChunkPos} {s : Side} :
    c.neighbor s = .ok n ↔
      n.x.toInt = c.x.toInt + s.normal.x.toInt ∧
      n.y.toInt = c.y.toInt + s.normal.y.toInt * 16 ∧
      n.z.toInt = c.z.toInt + s.normal.z.toInt := by
  simp only [neighbor, bind_eq_ok_iff, checkedAdd, checkedMul, fit32_eq_ok_iff]
  constructor
  · rintro ⟨x, hx, rise, hrise, y, hy, z, hz, h⟩
    cases h
    rw [hrise] at hy
    exact ⟨hx, hy, hz⟩
  · rintro ⟨hx, hy, hz⟩
    have hrise : InRange32 (s.normal.y.toInt * (16 : Int32).toInt) := by cases s <;> decide
    exact ⟨n.x, hx, _, toInt_ofInt32 hrise, n.y, by rw [toInt_ofInt32 hrise]; exact hy,
      n.z, hz, rfl⟩

/-- Every position has a neighbour through every side, or one of the additions overflows. -/
theorem neighbors_eq_ok_iff {c : ChunkPos} {around : PerSide ChunkPos} :
    c.neighbors = .ok around ↔ ∀ s, c.neighbor s = .ok (around.get s) :=
  PerSide.tabulate_eq_ok_iff

/-- **The chunk behind a side has this chunk behind the opposite side.** -/
theorem neighbor_opposite {c n : ChunkPos} {s : Side} (h : c.neighbor s = .ok n) :
    n.neighbor s.opposite = .ok c := by
  rw [neighbor_eq_ok_iff] at h ⊢
  have hback : s.opposite.normal.x.toInt = -s.normal.x.toInt ∧
      s.opposite.normal.y.toInt = -s.normal.y.toInt ∧
      s.opposite.normal.z.toInt = -s.normal.z.toInt := by cases s <;> decide
  omega

/-- No chunk is its own neighbour. -/
theorem neighbor_ne_self {c : ChunkPos} {s : Side} : c.neighbor s ≠ .ok c := by
  rw [ne_eq, neighbor_eq_ok_iff]
  have hstep : s.normal.x.toInt ≠ 0 ∨ s.normal.y.toInt ≠ 0 ∨ s.normal.z.toInt ≠ 0 := by
    cases s <;> decide
  omega

/-- Different sides lead to different neighbours. -/
theorem neighbor_injective {c n : ChunkPos} {s t : Side} (hs : c.neighbor s = .ok n)
    (ht : c.neighbor t = .ok n) : s = t := by
  rw [neighbor_eq_ok_iff] at hs ht
  have hnormal : s.normal.x.toInt = t.normal.x.toInt ∧ s.normal.y.toInt = t.normal.y.toInt ∧
      s.normal.z.toInt = t.normal.z.toInt := by omega
  revert hnormal
  cases s <;> cases t <;> decide

end ChunkPos

/-! ## 3. What meshing reads -/

/-- The layer of a chunk that faces whoever looks at the chunk through a side. -/
def Chunk.facing (c : Chunk) (side : Side) (i j : Fin 16) : Block :=
  c.get (.ofFrame side.axis side.opposite.border i j)

namespace Snapshot

variable {s t : Snapshot}

/-- Beyond the border lies the facing layer of the neighbour. -/
theorem beyond_congr (hchunk : s.chunk = t.chunk) {side : Side}
    (hfacing : (s.neighbors.get side).map (·.facing side) =
      (t.neighbors.get side).map (·.facing side)) (policy : Boundary) (layer : Fin 16) :
    s.beyond policy side layer = t.beyond policy side layer := by
  unfold beyond
  rw [hchunk]
  cases side.step? layer with
  | some next => rfl
  | none =>
    revert hfacing
    cases s.neighbors.get side with
    | none =>
      cases t.neighbors.get side with
      | none => exact fun _ => rfl
      | some n => exact nofun
    | some m =>
      cases t.neighbors.get side with
      | none => exact nofun
      | some n =>
        intro h
        funext i j
        exact congrArg some (congrFun (congrFun (Option.some.inj h) i) j)

/-- **A mesh depends on the chunk and on the facing layers of its neighbours** and on nothing
else. -/
theorem mesh_congr (hcoords : s.coords = t.coords) (hchunk : s.chunk = t.chunk)
    (hfacing : ∀ side, (s.neighbors.get side).map (·.facing side) =
      (t.neighbors.get side).map (·.facing side)) (policy : Boundary) :
    s.mesh policy = t.mesh policy := by
  have hquads : s.quads policy = t.quads policy := by
    unfold quads sliceQuads Slice.ofSnapshot
    simp only [beyond_congr hchunk (hfacing _), hchunk]
  unfold mesh
  rw [hquads, hchunk, hcoords]

end Snapshot

namespace World

/-- The mesh of a loaded chunk as the world is now; `none` if the chunk is not loaded. -/
def freshMesh (w : World) (policy : Boundary) (c : ChunkPos) : Except Fault (Option Mesh) :=
  match w.snapshot? c with
  | .error f => .error f
  | .ok none => .ok none
  | .ok (some s) => (s.mesh policy).map some

variable {w w' : World} {c : ChunkPos}

/-- Only a chunk that is not loaded has no snapshot. -/
theorem contains_of_snapshot?_eq_none (h : w.snapshot? c = .ok none) : w.contains c = false := by
  rw [contains_eq_isSome]
  unfold snapshot? at h
  cases hchunk : w.chunk? c with
  | none => rfl
  | some chunk =>
    rw [hchunk] at h
    obtain ⟨around, -, hsome⟩ := bind_eq_ok_iff.mp h
    cases hsome

theorem snapshot?_eq_some_iff {s : Snapshot} :
    w.snapshot? c = .ok (some s) ↔ ∃ chunk around, w.chunk? c = some chunk ∧
      c.neighbors = .ok around ∧ s = ⟨c, chunk, .ofFn fun side => w.seenAt (around.get side)⟩ := by
  unfold snapshot?
  cases w.chunk? c with
  | none => simp
  | some chunk =>
    rw [bind_eq_ok_iff]
    constructor
    · rintro ⟨around, haround, hs⟩
      cases hs
      exact ⟨chunk, around, rfl, haround, rfl⟩
    · rintro ⟨_, around, hchunk, haround, rfl⟩
      cases hchunk
      exact ⟨around, haround, rfl⟩

theorem freshMesh_eq_some_iff {policy : Boundary} {m : Mesh} :
    w.freshMesh policy c = .ok (some m) ↔
      ∃ s, w.snapshot? c = .ok (some s) ∧ s.mesh policy = .ok m := by
  unfold freshMesh
  rcases w.snapshot? c with f | _ | s
  · simp
  · simp
  · cases hmesh : s.mesh policy <;> simp [Except.map, hmesh]

/-- **Worlds that agree on a chunk and on the layers facing it have the same mesh there**, or
fail to mesh it in the same way. -/
theorem freshMesh_congr (hchunk : w'.chunk? c = w.chunk? c)
    (hseen : ∀ side n, c.neighbor side = .ok n →
      (w'.seenAt n).map (·.facing side) = (w.seenAt n).map (·.facing side)) (policy : Boundary) :
    w'.freshMesh policy c = w.freshMesh policy c := by
  unfold freshMesh snapshot?
  rw [hchunk]
  cases w.chunk? c with
  | none => rfl
  | some chunk =>
    cases haround : c.neighbors with
    | error f => rfl
    | ok around =>
      refine congrArg (Except.map some) ?_
      apply Snapshot.mesh_congr
      · rfl
      · rfl
      · intro side
        simp only [PerSide.get_ofFn]
        exact hseen side _ (ChunkPos.neighbors_eq_ok_iff.mp haround side)

/-- What lies at a position is seen alike in worlds of one height that agree on its chunk. -/
theorem seenAt_congr (hheight : w'.height = w.height) (hchunk : w'.chunk? c = w.chunk? c) :
    w'.seenAt c = w.seenAt c := by
  unfold seenAt hasFloor inRange
  rw [hheight, hchunk]

/-- The loaded neighbours of a position are those found behind its sides. -/
theorem mem_loadedBeside {beside : List ChunkPos} (h : w.loadedBeside c = .ok beside)
    {n : ChunkPos} :
    n ∈ beside ↔ w.contains n ∧ ∃ side, c.neighbor side = .ok n := by
  obtain ⟨around, haround, hbeside⟩ := bind_eq_ok_iff.mp h
  cases hbeside
  have hget := ChunkPos.neighbors_eq_ok_iff.mp haround
  rw [List.mem_filter, List.mem_map]
  constructor
  · rintro ⟨⟨side, -, rfl⟩, hn⟩
    exact ⟨hn, side, hget side⟩
  · rintro ⟨hn, side, hside⟩
    rw [hget side] at hside
    cases hside
    exact ⟨⟨side, Side.mem_all side, rfl⟩, hn⟩

/-! ## 4. Worlds that can be meshed -/

/-- In every loaded chunk the mask and the count agree with the blocks, as every operation on
chunks leaves them, and every code names a material. -/
structure Sound (w : World) : Prop where
  coherent : ∀ c chunk, w.chunk? c = some chunk → chunk.Coherent
  known : ∀ c chunk, w.chunk? c = some chunk → chunk.Known

theorem known_sky : sky.Known := Chunk.known_filled Block.known_sky

theorem Sound.seenAt_known (hw : w.Sound) {chunk : Chunk} (h : w.seenAt c = some chunk) :
    chunk.Known := by
  unfold seenAt at h
  split at h
  · exact hw.known c chunk h
  · cases h
    exact known_sky

/-- Snapshots of a sound world are sound. -/
theorem Sound.snapshot (hw : w.Sound) {s : Snapshot} (h : w.snapshot? c = .ok (some s)) :
    s.Sound := by
  obtain ⟨chunk, around, hchunk, -, rfl⟩ := snapshot?_eq_some_iff.mp h
  refine ⟨hw.coherent c chunk hchunk, hw.known c chunk hchunk, fun side n hn => ?_⟩
  rw [PerSide.get_ofFn] at hn
  exact hw.seenAt_known hn

end World

end Blockworld
