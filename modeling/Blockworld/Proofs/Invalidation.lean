/-
# Which meshes an operation can change

A world changes in three ways: a block is written, a chunk is inserted, chunks are dropped.  Each is
followed by requests for the meshes it may have changed, and a mesh that is not asked for again
must be what it was before.  This module says what each operation leaves alone:

* `World.freshMesh_insert`: every chunk that is not next to the inserted one;
* `World.freshMesh_trim`: every chunk that stays and has no dropped chunk next to it;
* `World.freshMesh_edit`: every loaded chunk that the edit does not list.

For an edit the list is also no longer than it has to be: the owner, and the loaded neighbours
through the borders that the cell lies on (`World.edit_touches_exactly`).

All three keep a world sound (`World.Sound.insert`, `World.Sound.trim`, `World.Sound.edit`), so
every chunk that is loaded can be meshed at any time.  In a sound world an edit that fails without
an overflow has changed nothing (`World.Sound.edit_error`).
-/
import Mathlib.Data.List.Nodup
import Blockworld.Proofs.Overflow

namespace Blockworld.World

open ChunkPos

variable {w w' : World} {c : ChunkPos}

/-! ## 1. Chunks that come and go -/

/-- A chunk keeps its mesh when it and its neighbours stay as they are. -/
theorem freshMesh_eq_of_chunks_eq (hheight : w'.height = w.height)
    (hchunk : w'.chunk? c = w.chunk? c)
    (hbeside : ∀ side n, c.neighbor side = .ok n → w'.chunk? n = w.chunk? n) (policy : Boundary) :
    w'.freshMesh policy c = w.freshMesh policy c := by
  refine freshMesh_congr hchunk (fun side n hn => ?_) policy
  rw [seenAt_congr hheight (hbeside side n hn)]

/-- **An inserted chunk changes no mesh but its own and those next to it.** -/
theorem freshMesh_insert {chunk : Chunk} (hne : chunk.position ≠ c)
    (hapart : ∀ side, c.neighbor side ≠ .ok chunk.position) (policy : Boundary) :
    (w.insert chunk).freshMesh policy c = w.freshMesh policy c := by
  apply freshMesh_eq_of_chunks_eq
  · rfl
  · rw [chunk?_insert, if_neg hne]
  · intro side n hn
    rw [chunk?_insert, if_neg]
    rintro rfl
    exact hapart side hn

/-- The chunks that stay are those in range. -/
theorem contains_trim {center : ChunkPos} {radius : Int32} :
    (w.trim center radius).1.contains c = true ↔
      w.contains c = true ∧ isOutside center radius c = false := by
  rw [contains_eq_isSome, contains_eq_isSome, chunk?_trim]
  cases isOutside center radius c <;> simp

/-- **Dropped chunks change no mesh of a chunk that stays, unless they are next to it.** -/
theorem freshMesh_trim {center : ChunkPos} {radius : Int32}
    (hstays : isOutside center radius c = false)
    (hapart : ∀ side n, c.neighbor side = .ok n → w.contains n →
      isOutside center radius n = false) (policy : Boundary) :
    (w.trim center radius).1.freshMesh policy c = w.freshMesh policy c := by
  apply freshMesh_eq_of_chunks_eq
  · rfl
  · rw [chunk?_trim, hstays]
    rfl
  · intro side n hn
    rw [chunk?_trim]
    by_cases hloaded : w.contains n
    · rw [hapart side n hn hloaded]
      rfl
    · rw [contains_eq_isSome, Option.not_isSome_iff_eq_none] at hloaded
      rw [hloaded, ite_self]

/-! ## 2. What an edit does -/

/-- What an edit that succeeds has found and done. -/
theorem edit_eq_ok_iff {p : Point} {block : Block} {touched : List ChunkPos} :
    w.edit p block = (w', .ok touched) ↔
      w.inRange p.y ∧ ∃ before after around, w.chunk? (owner p) = some before ∧
        before.set (place p) block = .ok after ∧ (owner p).neighbors = .ok around ∧
        w' = { w with chunks := w.chunks.insert (owner p) after } ∧
        touched = owner p :: ((place p).borders.map around.get).filter w'.contains := by
  unfold edit
  by_cases hrange : w.inRange p.y
  · rw [if_pos hrange]
    dsimp only
    cases hbefore : w.chunk? (owner p) with
    | none => simp
    | some before =>
      cases hset : before.set (place p) block with
      | error f => simp [hset]
      | ok after =>
        cases haround : (owner p).neighbors with
        | error f => simp [hset]
        | ok around =>
          simp only [hset, hrange, true_and]
          constructor
          · rintro ⟨⟩
            exact ⟨_, _, _, rfl, hset, rfl, rfl, rfl⟩
          · rintro ⟨_, _, _, ⟨⟩, hset', ⟨⟩, rfl, rfl⟩
            rw [hset] at hset'
            cases hset'
            rfl
  · simp [hrange]

/-- The chunk at each position after the chunk at one of them is replaced. -/
theorem chunk?_replace {o : ChunkPos} {after : Chunk}
    (h : w' = { w with chunks := w.chunks.insert o after }) :
    w'.chunk? c = if o = c then some after else w.chunk? c := by
  rw [h]
  simp [chunk?, Std.TreeMap.getElem?_insert]

/-- Replacing a loaded chunk loads no other. -/
theorem contains_replace {o : ChunkPos} {before after : Chunk} (hloaded : w.chunk? o = some before)
    (h : w' = { w with chunks := w.chunks.insert o after }) : w'.contains c = w.contains c := by
  rw [contains_eq_isSome, contains_eq_isSome, chunk?_replace h]
  split
  · next hc => rw [← hc, hloaded]; rfl
  · rfl

/-- A write behind the facing border leaves the facing layer alone. -/
theorem facing_of_set {before after : Chunk} {cell : Cell} {block : Block}
    (hset : before.set cell block = .ok after) {side : Side}
    (hbehind : cell.along side.axis ≠ side.opposite.border) :
    after.facing side = before.facing side := by
  funext i j
  unfold Chunk.facing
  rw [Chunk.get_of_set hset, if_neg]
  rintro rfl
  rw [Cell.along_ofFrame] at hbehind
  exact hbehind rfl

/-- **An edit of a sound world that does not succeed leaves it as it is**, unless it is cut short by
an overflow. -/
theorem Sound.edit_error (hw : w.Sound) {p : Point} {block : Block} {failure : Failure}
    (h : w.edit p block = (w', .error failure)) :
    (w' = w ∧ ∃ cause, failure = .refused cause) ∨
      ∃ operation, failure = .aborted (.overflow operation) := by
  unfold edit at h
  split at h
  · dsimp only at h
    split at h
    · cases h
      exact .inl ⟨rfl, _, rfl⟩
    · next before hbefore =>
      obtain ⟨after, hset, -⟩ := (hw.coherent _ _ hbefore).set (place p) block
      rw [hset] at h
      dsimp only at h
      split at h
      · next f hf =>
        obtain ⟨operation, rfl⟩ := OverflowOnly.neighbors _ f hf
        cases h
        exact .inr ⟨operation, rfl⟩
      · cases h
  · cases h
    exact .inl ⟨rfl, _, rfl⟩

/-! ## 3. Sound worlds -/

theorem sound_empty (height : Int32) : (empty height).Sound := by
  constructor <;> intro c chunk h <;> rw [chunk?_empty] at h <;> cases h

/-- Inserting a chunk that can be meshed keeps a world sound. -/
theorem Sound.insert (hw : w.Sound) {chunk : Chunk} (hcoherent : chunk.Coherent)
    (hknown : chunk.Known) : (w.insert chunk).Sound := by
  constructor <;> intro c other h <;> rw [chunk?_insert] at h <;> split at h
  · cases h
    exact hcoherent
  · exact hw.coherent c other h
  · cases h
    exact hknown
  · exact hw.known c other h

theorem Sound.trim (hw : w.Sound) (center : ChunkPos) (radius : Int32) :
    (w.trim center radius).1.Sound := by
  constructor <;> intro c chunk h <;> rw [chunk?_trim] at h <;> split at h
  · cases h
  · exact hw.coherent c chunk h
  · cases h
  · exact hw.known c chunk h

/-- Writing a known block keeps a world sound. -/
theorem Sound.edit (hw : w.Sound) {p : Point} {block : Block} {touched : List ChunkPos}
    (hblock : block.Known) (h : w.edit p block = (w', .ok touched)) : w'.Sound := by
  obtain ⟨-, before, after, -, hbefore, hset, -, hw', -⟩ := edit_eq_ok_iff.mp h
  obtain ⟨after', hset', hcoherent⟩ := (hw.coherent _ _ hbefore).set (place p) block
  rw [hset] at hset'
  cases hset'
  constructor <;> intro c chunk hc <;> rw [chunk?_replace hw'] at hc <;> split at hc
  · cases hc
    exact hcoherent
  · exact hw.coherent c chunk hc
  · cases hc
    exact (hw.known _ _ hbefore).set hblock hset
  · exact hw.known c chunk hc

/-! ## 4. What an edit lists -/

section Edit

variable {p : Point} {block : Block} {touched : List ChunkPos}

/-- **An edit lists its owner and the loaded neighbours through the borders of the cell.** -/
theorem mem_touched (h : w.edit p block = (w', .ok touched)) :
    c ∈ touched ↔ c = owner p ∨ w.contains c ∧
      ∃ side, (place p).along side.axis = side.border ∧ (owner p).neighbor side = .ok c := by
  obtain ⟨-, before, after, around, hbefore, -, haround, hw', rfl⟩ := edit_eq_ok_iff.mp h
  have hget := neighbors_eq_ok_iff.mp haround
  rw [List.mem_cons, List.mem_filter, List.mem_map, contains_replace hbefore hw', and_comm]
  refine or_congr_right (and_congr_right fun _ => exists_congr fun side => ?_)
  rw [hget side]
  simp [Cell.borders, Side.mem_all]

/-- An edit lists no chunk twice. -/
theorem nodup_touched (h : w.edit p block = (w', .ok touched)) : touched.Nodup := by
  obtain ⟨-, before, after, around, -, -, haround, -, rfl⟩ := edit_eq_ok_iff.mp h
  have hget := neighbors_eq_ok_iff.mp haround
  have hsides : (place p).borders.Nodup := Side.nodup_all.filter _
  rw [List.nodup_cons]
  constructor
  · intro hmem
    obtain ⟨side, -, hside⟩ := List.mem_map.mp (List.mem_filter.mp hmem).1
    exact neighbor_ne_self (hside ▸ hget side)
  · refine List.Nodup.filter _ ((List.nodup_map_iff_inj_on hsides).mpr ?_)
    intro s _ t _ hst
    have hs := hget s
    rw [hst] at hs
    exact neighbor_injective hs (hget t)

/-- **An edit changes no mesh of a loaded chunk that it does not list.**  If the owner of the cell
is behind a side of such a chunk, then the cell is not on the border they share. -/
theorem freshMesh_edit (h : w.edit p block = (w', .ok touched)) (hloaded : w.contains c)
    (hnot : c ∉ touched) (policy : Boundary) : w'.freshMesh policy c = w.freshMesh policy c := by
  rw [mem_touched h, not_or] at hnot
  obtain ⟨hne, hborder⟩ := hnot
  obtain ⟨-, before, after, around, hbefore, hset, -, hw', -⟩ := edit_eq_ok_iff.mp h
  have hheight : w'.height = w.height := by rw [hw']
  refine freshMesh_congr ?_ (fun side n hn => ?_) policy
  · rw [chunk?_replace hw', if_neg (Ne.symm hne)]
  · by_cases hn' : owner p = n
    · subst hn'
      have hbehind : (place p).along side.axis ≠ side.opposite.border := by
        intro hat
        refine hborder ⟨hloaded, side.opposite, ?_, neighbor_opposite hn⟩
        rw [Side.axis_opposite]
        exact hat
      have hfloor : w'.hasFloor (owner p) = w.hasFloor (owner p) := by
        unfold hasFloor inRange
        rw [hheight]
      unfold seenAt
      rw [hfloor, chunk?_replace hw', if_pos rfl, hbefore]
      split
      · exact congrArg some (facing_of_set hset hbehind)
      · rfl
    · rw [seenAt_congr hheight]
      rw [chunk?_replace hw', if_neg hn']

end Edit

/-- **An edit lists exactly the chunks it has to.**  The list starts with the owner of the cell and
has no duplicates; the other members are the loaded chunks behind the borders that the cell lies on;
and the mesh of every loaded chunk that is not listed is what it was before. -/
theorem edit_touches_exactly {p : Point} {block : Block} {touched : List ChunkPos}
    (h : w.edit p block = (w', .ok touched)) :
    (∀ policy c, w.contains c → c ∉ touched →
        w'.freshMesh policy c = w.freshMesh policy c) ∧
      touched.head? = some (owner p) ∧ touched.Nodup ∧
      ∀ c, c ∈ touched ↔ c = owner p ∨ w.contains c ∧
        ∃ side, (place p).along side.axis = side.border ∧ (owner p).neighbor side = .ok c := by
  refine ⟨fun policy c hloaded hnot => freshMesh_edit h hloaded hnot policy, ?_, nodup_touched h,
    fun c => mem_touched h⟩
  obtain ⟨-, _, _, _, -, -, -, -, rfl⟩ := edit_eq_ok_iff.mp h
  rfl

/-- Three chunks of stone side by side along `x`. -/
def wall : World :=
  (((empty 16).insert (.filled ⟨-1, 0, 0⟩ (.ofMaterial .stone))).insert
    (.filled .zero (.ofMaterial .stone))).insert (.filled ⟨1, 0, 0⟩ (.ofMaterial .stone))

theorem chunk?_wall_west :
    wall.chunk? ⟨-1, 0, 0⟩ = some (.filled ⟨-1, 0, 0⟩ (.ofMaterial .stone)) := by
  rw [wall, chunk?_insert, if_neg (by decide), chunk?_insert, if_neg (by decide), chunk?_insert]
  exact if_pos rfl

theorem chunk?_wall_zero : wall.chunk? .zero = some (.filled .zero (.ofMaterial .stone)) := by
  rw [wall, chunk?_insert, if_neg (by decide), chunk?_insert]
  exact if_pos rfl

/-- A block taken out of the middle chunk, at the border with its eastern neighbour, has both meshed
again.  The western neighbour, which is stone as well, keeps its mesh. -/
theorem wall_edit_touches_exactly :
    ∃ w', wall.edit ⟨15, 3, 7⟩ Block.air = (w', .ok [.zero, ⟨1, 0, 0⟩]) ∧
      wall.contains ⟨-1, 0, 0⟩ = true ∧
      ∀ policy, w'.freshMesh policy ⟨-1, 0, 0⟩ = wall.freshMesh policy ⟨-1, 0, 0⟩ := by
  obtain ⟨after, hset, -⟩ :=
    (Chunk.coherent_filled .zero (.ofMaterial .stone)).set (place ⟨15, 3, 7⟩) Block.air
  have hedit : wall.edit ⟨15, 3, 7⟩ Block.air = (_, .ok [.zero, ⟨1, 0, 0⟩]) :=
    edit_eq_ok_iff.mpr ⟨rfl, _, after, _, chunk?_wall_zero, hset, rfl, rfl, rfl⟩
  have hloaded : wall.contains ⟨-1, 0, 0⟩ = true := by
    rw [contains_eq_isSome, chunk?_wall_west]
    rfl
  exact ⟨_, hedit, hloaded, fun policy =>
    (edit_touches_exactly hedit).1 policy _ hloaded (by decide)⟩

end Blockworld.World
