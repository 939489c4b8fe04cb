/-
# Reads and edits never overflow

Reading and editing take machine words apart and put others together: the coordinates of the point
are divided by the chunk size, the height is multiplied back, the remainders are used as indices,
and an edit, after it has written, steps to all six adjacent chunks, whether the cell lies on a
border or not.  `World.readByNumber` and `World.editByNumber` are reading and editing with every one
of these steps checked.

* `ChunkPos.locate?_eq`: finding the chunk and the place of a point never faults, at no point;
* `World.readByNumber_eq`, `World.editByNumber_eq`: so the checked forms do what `World.blockAt` and
  `World.edit` do, in every world;
* `World.edit_aborts_iff`: the one step left that can overflow is the one to the chunk above.  It
  does so exactly in the topmost layer of chunks that there are words for, and by then the cell is
  changed;
* `World.edits_complete`: a height that is a multiple of 16 leaves that layer out of every world, so
  that each read gives a block and each edit succeeds or is refused.
-/
import Blockworld.Proofs.BlockMap

namespace Blockworld

/-- A table of the sides fails at the first side whose entry does. -/
theorem PerSide.tabulate_error {α : Type} {f : Side → Except Fault α} {e : Fault}
    (h : PerSide.tabulate f = .error e) :
    ∃ before side after, Side.all = before ++ side :: after ∧ f side = .error e ∧
      ∀ s ∈ before, ∃ a, f s = .ok a := by
  simp only [PerSide.tabulate, bind_eq_error_iff] at h
  rcases h with h | ⟨west, hw, h | ⟨east, he, h | ⟨down, hd, h | ⟨up, hu, h | ⟨north, hn, h |
    ⟨south, hs, ⟨⟩⟩⟩⟩⟩⟩⟩
  · exact ⟨[], .west, _, rfl, h, by simp⟩
  · exact ⟨[.west], .east, _, rfl, h, by simp [hw]⟩
  · exact ⟨[.west, .east], .down, _, rfl, h, by simp [hw, he]⟩
  · exact ⟨[.west, .east, .down], .up, _, rfl, h, by simp [hw, he, hd]⟩
  · exact ⟨[.west, .east, .down, .up], .north, _, rfl, h, by simp [hw, he, hd, hu]⟩
  · exact ⟨[.west, .east, .down, .up, .north], .south, _, rfl, h, by simp [hw, he, hd, hu, hn]⟩

/-! ## 1. Finding a cell by numbers -/

namespace ChunkPos

/-- A sixteenth of a coordinate, rounded down.  Where the coordinate is negative this takes one away
from the quotient. -/
def sixteenth? (a : Int32) : Except Fault Int32 := fit32 .subtract (a.toInt / 16)

/-- The chunk that owns a point, and the three numbers of the point's place in it. -/
def locate? (p : Point) : Except Fault (ChunkPos × Nat × Nat × Nat) := do
  let x ← sixteenth? p.x
  let layer ← sixteenth? p.y
  let y ← checkedMul layer 16
  let z ← sixteenth? p.z
  return (⟨x, y, z⟩, (p.x.toInt % 16).toNat, (p.y.toInt % 16).toNat, (p.z.toInt % 16).toNat)

theorem sixteenth?_eq_ok_iff {a r : Int32} : sixteenth? a = .ok r ↔ r.toInt = a.toInt / 16 :=
  fit32_eq_ok_iff

/-- **Every point is located**, in the chunk that owns it and at its place. -/
theorem locate?_eq (p : Point) :
    locate? p = .ok (owner p, (place p).x.val, (place p).y.val, (place p).z.val) := by
  obtain ⟨hx, hy, hz⟩ := owner_toInt p
  have hlayer : (layer (owner p)).toInt = p.y.toInt / 16 := by
    rw [toInt_layer, hy]
    omega
  have hfloor : checkedMul (layer (owner p)) 16 = .ok (owner p).y := by
    rw [checkedMul, fit32_eq_ok_iff, hy, hlayer]
    rfl
  unfold locate?
  simp only [bind_eq_ok_iff]
  exact ⟨_, sixteenth?_eq_ok_iff.mpr hx, _, sixteenth?_eq_ok_iff.mpr hlayer, _, hfloor, _,
    sixteenth?_eq_ok_iff.mpr hz, rfl⟩

end ChunkPos

/-- The numbers of a cell lead back to the cell. -/
theorem Cell.at?_val (cell : Cell) : at? cell.x.val cell.y.val cell.z.val = .ok cell :=
  dif_pos ⟨cell.x.isLt, cell.y.isLt, cell.z.isLt⟩

namespace World

open ChunkPos

/-! ## 2. Reading and editing by numbers -/

/-- The block at a point, found with every step checked. -/
def readByNumber (w : World) (p : Point) : Except Fault Block :=
  if w.inRange p.y then do
    let (c, x, y, z) ← locate? p
    match w.chunk? c with
    | some chunk => (Cell.at? x y z).map chunk.get
    | none => return Block.air
  else return Block.air

/-- The loaded chunks through the listed sides on whose border a cell lies.  The position behind a
side is computed before the border is looked at. -/
def loadedThrough (w : World) (c : ChunkPos) (cell : Cell) :
    List Side → Except Fault (List ChunkPos)
  | [] => .ok []
  | side :: rest => do
    let n ← c.neighbor side
    let more ← w.loadedThrough c cell rest
    return if cell.along side.axis == side.border && w.contains n then n :: more else more

/-- Writes the block at a point, with every step checked.  The adjacent positions come after the
write, so a fault there leaves the cell changed. -/
def editByNumber (w : World) (p : Point) (block : Block) :
    World × Except Failure (List ChunkPos) :=
  if w.inRange p.y then
    match locate? p with
    | .error f => (w, .error (.aborted f))
    | .ok (c, x, y, z) =>
      match w.chunk? c with
      | none => (w, .error (.refused (.notLoaded c)))
      | some chunk =>
        match Cell.at? x y z >>= fun cell => (chunk.set cell block).map (cell, ·) with
        | .error f => (w, .error (.aborted f))
        | .ok (cell, chunk) =>
          let w := { w with chunks := w.chunks.insert c chunk }
          match w.loadedThrough c cell Side.all with
          | .error f => (w, .error (.aborted f))
          | .ok touched => (w, .ok (c :: touched))
  else (w, .error (.refused (.outOfRange p)))

variable {w w' : World} {c : ChunkPos} {cell : Cell} {p : Point} {block : Block}

/-- **Reading never faults.** -/
theorem readByNumber_eq (w : World) (p : Point) : w.readByNumber p = .ok (w.blockAt p) := by
  unfold readByNumber blockAt
  split
  · simp only [locate?_eq, bind, Except.bind]
    cases w.chunk? (owner p) with
    | none => rfl
    | some chunk => simp only [Cell.at?_val, Except.map]
  · rfl

/-- Where all six positions exist, the loaded ones through the borders are picked out. -/
theorem loadedThrough_eq {around : PerSide ChunkPos}
    (haround : ∀ s, c.neighbor s = .ok (around.get s)) (sides : List Side) :
    w.loadedThrough c cell sides = .ok
      (((sides.filter fun s => cell.along s.axis == s.border).map around.get).filter
        w.contains) := by
  induction sides with
  | nil => rfl
  | cons side rest ih =>
    rw [loadedThrough, haround, ih]
    cases hborder : cell.along side.axis == side.border with
    | false => simp [hborder, bind, Except.bind, pure, Except.pure]
    | true =>
      cases hloaded : w.contains (around.get side) <;>
        simp [hborder, hloaded, bind, Except.bind, pure, Except.pure]

/-- The first position that there is no word for ends the search. -/
theorem loadedThrough_error {f : Fault} {side : Side} {before after : List Side}
    (h : c.neighbor side = .error f) (hbefore : ∀ s ∈ before, ∃ n, c.neighbor s = .ok n) :
    w.loadedThrough c cell (before ++ side :: after) = .error f := by
  induction before with
  | nil => exact bind_eq_error_iff.mpr (.inl h)
  | cons s rest ih =>
    obtain ⟨n, hn⟩ := hbefore s List.mem_cons_self
    have hrest := ih fun t ht => hbefore t (List.mem_cons_of_mem _ ht)
    exact bind_eq_error_iff.mpr (.inr ⟨n, hn, bind_eq_error_iff.mpr (.inl hrest)⟩)

/-- **Editing does the same by numbers**, fault for fault. -/
theorem editByNumber_eq (w : World) (p : Point) (block : Block) :
    w.editByNumber p block = w.edit p block := by
  unfold editByNumber edit
  split
  · simp only [locate?_eq, Cell.at?_val]
    cases w.chunk? (owner p) with
    | none => rfl
    | some chunk =>
      simp only [bind, Except.bind]
      cases chunk.set (place p) block with
      | error f => rfl
      | ok after =>
        simp only [Except.map]
        cases haround : (owner p).neighbors with
        | error f =>
          obtain ⟨before, side, after, hall, hside, hbefore⟩ := PerSide.tabulate_error haround
          simp only [hall, loadedThrough_error hside hbefore]
        | ok around =>
          simp only [loadedThrough_eq (neighbors_eq_ok_iff.mp haround)]
          rfl
  · rfl

/-! ## 3. What can still overflow -/

/-- An edit is cut short where the cell is written and an adjacent position is missing. -/
theorem edit_eq_aborted_iff (hcoherent : ∀ c chunk, w.chunk? c = some chunk → chunk.Coherent)
    {f : Fault} : w.edit p block = (w', .error (.aborted f)) ↔
      w.inRange p.y ∧ ∃ before after, w.chunk? (owner p) = some before ∧
        before.set (place p) block = .ok after ∧ (owner p).neighbors = .error f ∧
        w' = { w with chunks := w.chunks.insert (owner p) after } := by
  unfold edit
  by_cases hrange : w.inRange p.y
  · rw [if_pos hrange]
    dsimp only
    cases hbefore : w.chunk? (owner p) with
    | none => simp
    | some before =>
      obtain ⟨after, hset, -⟩ := (hcoherent _ _ hbefore).set (place p) block
      cases haround : (owner p).neighbors with
      | ok around => simp [hset]
      | error e => simp [hset, hrange, eq_comm, and_comm]
  · simp [hrange]

/-- **The chunk of a point above the floor of the range has a neighbour on every side, unless it is
in the topmost layer that there are words for.** -/
theorem exists_neighbors_owner_iff (hlow : 0 ≤ p.y) :
    (∃ around, (owner p).neighbors = .ok around) ↔ p.y.toInt < 0x7ffffff0 := by
  constructor
  · rintro ⟨around, haround⟩
    obtain ⟨-, hy, -⟩ := neighbor_eq_ok_iff.mp (neighbors_eq_ok_iff.mp haround .up)
    have hup : Side.up.normal.y.toInt = 1 := by decide
    have hword := inRange32_toInt (around.get .up).y
    unfold InRange32 at hword
    rw [hup, (owner_toInt p).2.1] at hy
    omega
  · intro hhigh
    have htop : (0x7ffffff0 : Int32).toInt = 0x7ffffff0 := by decide
    have hfloor : (0x7ffffff0 : Int32).toInt % 16 = 0 := by rw [htop]; rfl
    exact exists_neighbors_owner hfloor hlow (Int32.lt_iff_toInt_lt.mpr (by rwa [htop]))

/-- **Where edits overflow.**  In a world of any height, an edit is cut short exactly in a loaded
chunk of the topmost layer that there are words for; no chunk is above that. -/
theorem edit_aborts_iff (hcoherent : ∀ c chunk, w.chunk? c = some chunk → chunk.Coherent) :
    (∃ w' f, w.edit p block = (w', .error (.aborted f))) ↔
      (0 ≤ p.y ∧ p.y < w.height) ∧ w.contains (owner p) = true ∧ 0x7ffffff0 ≤ p.y.toInt := by
  simp only [edit_eq_aborted_iff hcoherent, inRange_eq_true_iff]
  constructor
  · rintro ⟨w', f, hrange, before, after, hbefore, -, haround, -⟩
    refine ⟨hrange, by rw [contains_eq_isSome, hbefore]; rfl, ?_⟩
    by_contra hlow
    obtain ⟨around, hall⟩ := (exists_neighbors_owner_iff hrange.1).mpr (by omega)
    rw [haround] at hall
    cases hall
  · rintro ⟨hrange, hloaded, htop⟩
    rw [contains_eq_isSome] at hloaded
    obtain ⟨before, hbefore⟩ := Option.isSome_iff_exists.mp hloaded
    obtain ⟨after, hset, -⟩ := (hcoherent _ _ hbefore).set (place p) block
    cases haround : (owner p).neighbors with
    | ok around =>
      have hlow := (exists_neighbors_owner_iff hrange.1).mp ⟨around, haround⟩
      omega
    | error f => exact ⟨_, f, hrange, before, after, hbefore, hset, rfl, rfl⟩

/-- An edit that is cut short has changed its cell. -/
theorem blockAt_of_edit_aborted {f : Fault}
    (hcoherent : ∀ c chunk, w.chunk? c = some chunk → chunk.Coherent)
    (h : w.edit p block = (w', .error (.aborted f))) : w'.blockAt p = block := by
  obtain ⟨hrange, before, after, -, hset, -, hw'⟩ := (edit_eq_aborted_iff hcoherent).mp h
  have hin : w'.inRange p.y = true := by
    rw [hw']
    exact hrange
  unfold blockAt
  rw [if_pos hin, chunk?_replace hw', if_pos rfl]
  dsimp only
  rw [Chunk.get_of_set hset, if_pos rfl]

/-! ## 4. Worlds of a height that is a multiple of 16 -/

/-- **Reads and edits never overflow.**  In a world whose height is a multiple of the chunk size and
whose chunks were made by the operations on chunks, every point is read, and an edit with any block
at any point is refused for the point's height, or refused for its chunk, or it succeeds and the
point then reads as the block.  No check on the way fails. -/
theorem edits_complete (w : World) (hheight : w.height.toInt % 16 = 0)
    (hbuilt : ∀ c chunk, w.chunk? c = some chunk → chunk.Built) (p : Point) (block : Block) :
    w.readByNumber p = .ok (w.blockAt p) ∧
      ((w.editByNumber p block = (w, .error (.refused (.outOfRange p))) ∧
          ¬(0 ≤ p.y ∧ p.y < w.height)) ∨
        (w.editByNumber p block = (w, .error (.refused (.notLoaded (owner p)))) ∧
          (0 ≤ p.y ∧ p.y < w.height) ∧ w.contains (owner p) = false) ∨
        ∃ w' touched, w.editByNumber p block = (w', .ok touched) ∧
          (0 ≤ p.y ∧ p.y < w.height) ∧ w.contains (owner p) = true ∧ w'.blockAt p = block) := by
  have hcoherent : ∀ c chunk, w.chunk? c = some chunk → chunk.Coherent :=
    fun c chunk h => (hbuilt c chunk h).coherent
  refine ⟨w.readByNumber_eq p, ?_⟩
  rw [editByNumber_eq, contains_eq_isSome]
  rcases edit_cases hheight hcoherent p block with
    hout | ⟨hedit, hrange, hnone⟩ | ⟨w', touched, before, after, hedit, hrange, hbefore, -⟩
  · exact .inl hout
  · exact .inr (.inl ⟨hedit, hrange, by rw [hnone]; rfl⟩)
  · refine .inr (.inr ⟨w', touched, hedit, hrange, by rw [hbefore]; rfl, ?_⟩)
    rw [blockAt_edit hedit, if_pos rfl]

/-- The highest world there is, with one chunk of stone in its topmost layer, at the end of the
words along `x` and `z`. -/
def pinnacle : World :=
  (empty 0x7ffffff0).insert (.filled ⟨0x7ffffff, 0x7fffffe0, -0x8000000⟩ (.ofMaterial .stone))

/-- The outermost cell of that chunk is read and written. -/
theorem pinnacle_edits_complete :
    pinnacle.height.toInt % 16 = 0 ∧
      (∀ c chunk, pinnacle.chunk? c = some chunk → chunk.Built) ∧
      pinnacle.readByNumber ⟨0x7fffffff, 0x7fffffef, -0x80000000⟩ = .ok (.ofMaterial .stone) ∧
      ∃ w' touched, pinnacle.editByNumber ⟨0x7fffffff, 0x7fffffef, -0x80000000⟩
          (.ofMaterial .glass) = (w', .ok touched) ∧
        w'.blockAt ⟨0x7fffffff, 0x7fffffef, -0x80000000⟩ = .ofMaterial .glass := by
  have hchunk : pinnacle.chunk? (owner ⟨0x7fffffff, 0x7fffffef, -0x80000000⟩) =
      some (.filled ⟨0x7ffffff, 0x7fffffe0, -0x8000000⟩ (.ofMaterial .stone)) := by
    unfold pinnacle
    rw [chunk?_insert, if_pos (by decide)]
  have hbuilt : ∀ c chunk, pinnacle.chunk? c = some chunk → chunk.Built := by
    intro c chunk h
    unfold pinnacle at h
    rw [chunk?_insert, chunk?_empty] at h
    split at h <;> cases h
    exact .filled _ _
  have hheight : pinnacle.height.toInt % 16 = 0 := by decide
  have hrange : (0 : Int32) ≤ 0x7fffffef ∧ (0x7fffffef : Int32) < pinnacle.height := by decide
  obtain ⟨hread, hedit⟩ := edits_complete pinnacle hheight hbuilt
    ⟨0x7fffffff, 0x7fffffef, -0x80000000⟩ (.ofMaterial .glass)
  refine ⟨hheight, hbuilt, ?_, ?_⟩
  · rw [hread]
    unfold blockAt
    rw [if_pos (inRange_eq_true_iff.mpr hrange), hchunk]
    exact congrArg Except.ok (Chunk.get_filled _ _ _)
  · rcases hedit with ⟨-, hout⟩ | ⟨-, -, hnot⟩ | ⟨w', touched, hedit, -, -, hblock⟩
    · exact absurd hrange hout
    · rw [contains_eq_isSome, hchunk] at hnot
      cases hnot
    · exact ⟨w', touched, hedit, hblock⟩

end World

end Blockworld
