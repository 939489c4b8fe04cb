/-
# How far out an engine can start

Positions are words, and everything computed from them can overflow: the positions around the
viewer, and the coordinates of the cells of a chunk there.  This module says exactly where the words
end.

* `World.exists_surroundings_iff`: the positions in range of an aligned centre are enumerated
  exactly if the outermost of them have words for coordinates, also those outside the vertical
  range, which the enumeration computes before it leaves them out;
* `Terrain.exists_flat_iff`: a flat chunk is made exactly if its cells have words for coordinates
  and for depths;
* `Config.completes_iff`: what remains to be asked of a configuration that is accepted, so that its
  engine can start.  The rules that a configuration is checked against do not ask it
  (`Config.not_completes_summit`).
-/
import Blockworld.Config
import Blockworld.Proofs.Generation
import Blockworld.Proofs.Range

namespace Blockworld

/-! ## 1. Positions in range -/

/-- The outermost positions within a radius of a centre have words for coordinates. -/
structure ChunkPos.Spans (center : ChunkPos) (radius : Int32) : Prop where
  x : InRange32 (center.x.toInt - radius.toInt) ∧ InRange32 (center.x.toInt + radius.toInt)
  y : InRange32 (center.y.toInt - 16 * radius.toInt) ∧
    InRange32 (center.y.toInt + 16 * radius.toInt)
  z : InRange32 (center.z.toInt - radius.toInt) ∧ InRange32 (center.z.toInt + radius.toInt)

namespace World

variable {w : World} {center : ChunkPos} {radius : Int32}

/-- A sweep succeeds if every step does. -/
theorem exists_sweep {α : Type} {f : Int32 → Except Fault (List α)} {n : Nat} {start : Int}
    (h : ∀ k < n, ∃ here, f (Int32.ofInt (start + (k : Nat))) = .ok here) :
    ∃ found, sweep f n start = .ok found := by
  induction n generalizing start with
  | zero => exact ⟨[], rfl⟩
  | succ n ih =>
    obtain ⟨here, hhere⟩ := h 0 (Nat.succ_pos n)
    have hrest : ∀ k < n, ∃ there, f (Int32.ofInt (start + 1 + (k : Nat))) = .ok there := by
      intro k hk
      rw [step_succ]
      exact h (k + 1) (Nat.succ_lt_succ hk)
    obtain ⟨there, hthere⟩ := ih hrest
    rw [Int.natCast_zero, Int.add_zero] at hhere
    exact ⟨here ++ there, bind_eq_ok_iff.mpr
      ⟨here, hhere, bind_eq_ok_iff.mpr ⟨there, hthere, rfl⟩⟩⟩

/-- A sweep from `-radius` to `radius` succeeds if every step does. -/
theorem exists_sweepAround {α : Type} {f : Int32 → Except Fault (List α)}
    (h : ∀ d : Int32, d.toInt.natAbs ≤ radius.toInt → ∃ here, f d = .ok here) :
    ∃ found, sweepAround radius f = .ok found := by
  refine exists_sweep fun k hk => h _ ?_
  rw [toInt_step hk]
  omega

/-- A candidate within a radius is found if the outermost ones have words for coordinates. -/
theorem exists_candidate (hcenter : center.Aligned) (h : center.Spans radius) {dx dy dz : Int32}
    (hdx : dx.toInt.natAbs ≤ radius.toInt) (hdy : dy.toInt.natAbs ≤ radius.toInt)
    (hdz : dz.toInt.natAbs ≤ radius.toInt) :
    ∃ found, w.candidate center dx dy dz = .ok found := by
  obtain ⟨hx, hy, hz⟩ := h
  have hsixteen : (16 : Int32).toInt = 16 := rfl
  unfold InRange32 at hx hy hz
  unfold ChunkPos.Aligned at hcenter
  have hrise : InRange32 (dy.toInt * (16 : Int32).toInt) := by
    rw [hsixteen]
    unfold InRange32
    omega
  have hfloor :
      InRange32 (center.y.toInt + (Int32.ofInt (dy.toInt * (16 : Int32).toInt)).toInt) := by
    rw [toInt_ofInt32 hrise, hsixteen]
    unfold InRange32
    omega
  have hwest : InRange32 (center.x.toInt + dx.toInt) := by
    unfold InRange32
    omega
  have hnorth : InRange32 (center.z.toInt + dz.toInt) := by
    unfold InRange32
    omega
  have haligned : ChunkPos.Aligned ⟨Int32.ofInt (center.x.toInt + dx.toInt),
      Int32.ofInt (center.y.toInt + (Int32.ofInt (dy.toInt * (16 : Int32).toInt)).toInt),
      Int32.ofInt (center.z.toInt + dz.toInt)⟩ := by
    unfold ChunkPos.Aligned
    dsimp only
    rw [toInt_ofInt32 hfloor, toInt_ofInt32 hrise, hsixteen]
    omega
  unfold candidate checkedMul checkedAdd ChunkPos.aligned?
  rw [fit32_of_inRange _ hrise]
  simp only [bind, Except.bind, fit32_of_inRange _ hfloor, fit32_of_inRange _ hwest,
    fit32_of_inRange _ hnorth, if_pos haligned]
  exact ⟨_, rfl⟩

/-- **The positions in range are enumerated exactly if the outermost of them have words for
coordinates.** -/
theorem exists_surroundings_iff (hcenter : center.Aligned) (hradius : 0 ≤ radius.toInt) :
    (∃ wanted, w.surroundings center radius = .ok wanted) ↔ center.Spans radius := by
  have hr := inRange32_toInt radius
  unfold InRange32 at hr
  have hneg : (Int32.ofInt (-radius.toInt)).toInt = -radius.toInt :=
    toInt_ofInt32 (by unfold InRange32; omega)
  constructor
  · rintro ⟨wanted, h⟩
    have hall := (surroundings_spec h).1
    have hlow : (Int32.ofInt (-radius.toInt)).toInt.natAbs ≤ radius.toInt := by omega
    have hhigh : radius.toInt.natAbs ≤ radius.toInt := by omega
    obtain ⟨here, hhere⟩ := hall _ _ _ hlow hlow hlow
    obtain ⟨there, hthere⟩ := hall _ _ _ hhigh hhigh hhigh
    obtain ⟨m, hmx, hmy, hmz, -⟩ := candidate_spec hhere
    obtain ⟨n, hnx, hny, hnz, -⟩ := candidate_spec hthere
    rw [hneg] at hmx hmy hmz
    refine ⟨⟨?_, hnx ▸ inRange32_toInt n.x⟩, ⟨?_, hny ▸ inRange32_toInt n.y⟩,
      ⟨?_, hnz ▸ inRange32_toInt n.z⟩⟩
    · rw [Int.sub_eq_add_neg, ← hmx]
      exact inRange32_toInt m.x
    · rw [show center.y.toInt - 16 * radius.toInt = m.y.toInt by omega]
      exact inRange32_toInt m.y
    · rw [Int.sub_eq_add_neg, ← hmz]
      exact inRange32_toInt m.z
  · intro h
    obtain ⟨found, hfound⟩ := exists_sweepAround fun dz hdz => exists_sweepAround fun dy hdy =>
      exists_sweepAround fun dx hdx => exists_candidate (w := w) hcenter h hdx hdy hdz
    exact ⟨_, surroundings_eq_ok_iff.mpr ⟨hneg ▸ inRange32_toInt _, found, hfound, rfl⟩⟩

end World

/-! ## 2. Flat chunks -/

namespace Terrain

variable {cave : Int32 → Int32 → Int32 → Bool} {seaLevel : Int32} {position : ChunkPos}

/-- **A flat chunk is made exactly if its cells have words for coordinates and for depths.** -/
theorem exists_flat_iff :
    (∃ chunk, layered (fun _ _ => baseHeight) cave seaLevel position = .ok chunk) ↔
      (-0x8000000 ≤ position.x.toInt ∧ position.x.toInt < 0x8000000) ∧
      (-2147483624 ≤ position.y.toInt ∧ position.y.toInt ≤ 2147483632) ∧
      -0x8000000 ≤ position.z.toInt ∧ position.z.toInt < 0x8000000 := by
  have hbase : baseHeight.toInt = 24 := rfl
  rw [exists_layered_iff]
  constructor
  · rintro ⟨hcoordinate, hdepth⟩
    -- two opposite cells of the chunk bound the others
    have hlow := hcoordinate ⟨0, 0, 0⟩
    have hhigh := hcoordinate ⟨15, 15, 15⟩
    obtain ⟨p, hp⟩ := Point.exists_marks_iff.mpr hlow
    have hdeep := hdepth p _ hp
    rw [hbase, (Point.marks_iff.mp hp).2.1] at hdeep
    have hx := hlow .x
    have hx' := hhigh .x
    have hy' := hhigh .y
    have hz := hlow .z
    have hz' := hhigh .z
    have h0 : ((0 : Fin 16).val : Int) = 0 := rfl
    have h15 : ((15 : Fin 16).val : Int) = 15 := rfl
    simp only [ChunkPos.coordinate, h0, h15, InRange32] at *
    omega
  · rintro ⟨hx, hy, hz⟩
    refine ⟨fun cell d => ?_, fun p cell hp => ?_⟩
    · obtain ⟨⟨x, hcx⟩, ⟨y, hcy⟩, ⟨z, hcz⟩⟩ := cell
      unfold InRange32
      cases d <;> simp only [ChunkPos.coordinate] <;> omega
    · rw [hbase, (Point.marks_iff.mp hp).2.1]
      omega

/-- The other methods compute no coordinates. -/
theorem forall_exists_generate_iff :
    (∀ t : Terrain, t.method ≠ .perlin → ∃ chunk, t.generate position = .ok chunk) ↔
      (-0x8000000 ≤ position.x.toInt ∧ position.x.toInt < 0x8000000) ∧
      (-2147483624 ≤ position.y.toInt ∧ position.y.toInt ≤ 2147483632) ∧
      -0x8000000 ≤ position.z.toInt ∧ position.z.toInt < 0x8000000 := by
  constructor
  · intro h
    exact exists_flat_iff.mp (h (.ofSeed .flat 0 0) nofun)
  · rintro h ⟨method, seaLevel, noise⟩ hmethod
    cases method with
    | perlin => exact absurd rfl hmethod
    | flat => exact exists_flat_iff.mpr h
    | solid => exact ⟨_, rfl⟩
    | empty => exact ⟨_, rfl⟩
    | checkerboard => exact ⟨_, rfl⟩

end Terrain

/-! ## 3. Configurations -/

namespace Config

/-- The engine of a configuration can start: the positions around the viewer are enumerated, and
every chunk there is made by every method but the noisy one, whatever the sea level. -/
def Completes (c : Config) : Prop :=
  ∃ wanted, (World.empty c.worldHeight).surroundings c.viewer c.renderDistance = .ok wanted ∧
    ∀ p ∈ wanted, ∀ t : Terrain, t.method ≠ .perlin → ∃ chunk, t.generate p = .ok chunk

/-- The chunk floors in range of the viewer, and inside the world. -/
theorem mem_wanted_iff {c : Config} (hc : c.Valid) {wanted : List ChunkPos}
    (h : (World.empty c.worldHeight).surroundings c.viewer c.renderDistance = .ok wanted)
    {p : ChunkPos} : p ∈ wanted ↔ p.y.toInt % 16 = 0 ∧
      (0 ≤ p.y.toInt ∧ p.y.toInt < c.worldHeight.toInt) ∧
      (p.x.toInt - c.viewer.x.toInt).natAbs ≤ c.renderDistance.toInt ∧
      (p.y.toInt - c.viewer.y.toInt).natAbs ≤ 16 * c.renderDistance.toInt ∧
      (p.z.toInt - c.viewer.z.toInt).natAbs ≤ c.renderDistance.toInt := by
  have hradius := World.radius_lt_of_surroundings h
  have hviewer := hc.viewer_aligned
  have hzero : (0 : Int32).toInt = 0 := rfl
  unfold ChunkPos.Aligned at hviewer
  rw [World.mem_surroundings hc.viewer_aligned h, World.isOutside_eq_false_iff (by omega),
    ChunkPos.toInt_layer, ChunkPos.toInt_layer]
  unfold ChunkPos.Aligned World.hasFloor World.inRange World.empty
  simp only [Bool.and_eq_true, decide_eq_true_eq, Int32.le_iff_toInt_le, Int32.lt_iff_toInt_lt,
    hzero]
  omega

/-- If some chunk floor in range is inside the world, then a chunk is wanted in every column in
range. -/
theorem exists_mem_wanted {c : Config} (hc : c.Valid) {wanted : List ChunkPos}
    (h : (World.empty c.worldHeight).surroundings c.viewer c.renderDistance = .ok wanted)
    (hbelow : c.viewer.y.toInt - 16 * c.renderDistance.toInt < c.worldHeight.toInt)
    (habove : 0 ≤ c.viewer.y.toInt + 16 * c.renderDistance.toInt) {x z : Int32}
    (hx : (x.toInt - c.viewer.x.toInt).natAbs ≤ c.renderDistance.toInt)
    (hz : (z.toInt - c.viewer.z.toInt).natAbs ≤ c.renderDistance.toInt) :
    ∃ p ∈ wanted, p.x = x ∧ p.z = z := by
  have hviewer := hc.viewer_aligned
  have hpos := hc.worldHeight_pos
  have hradius := hc.renderDistance_nonneg
  have hheight := inRange32_toInt c.worldHeight
  unfold ChunkPos.Aligned at hviewer
  unfold InRange32 at hheight
  -- the lowest floor that is in range and inside the world
  have hfloor : InRange32 (max 0 (c.viewer.y.toInt - 16 * c.renderDistance.toInt)) := by
    unfold InRange32
    omega
  refine ⟨⟨x, .ofInt (max 0 (c.viewer.y.toInt - 16 * c.renderDistance.toInt)), z⟩, ?_, rfl, rfl⟩
  rw [mem_wanted_iff hc h]
  dsimp only
  rw [toInt_ofInt32 hfloor]
  omega

/-- **What an accepted configuration has to satisfy beside, so that its engine can start.**  The
outermost positions around the viewer have words for coordinates, and if some chunk floor in range
is inside the world, then so have the cells of the outermost chunks. -/
theorem completes_iff (c : Config) (hc : c.validate = .ok ()) :
    c.Completes ↔ c.viewer.Spans c.renderDistance ∧
      (c.viewer.y.toInt - 16 * c.renderDistance.toInt < c.worldHeight.toInt →
        0 ≤ c.viewer.y.toInt + 16 * c.renderDistance.toInt →
        (-0x8000000 ≤ c.viewer.x.toInt - c.renderDistance.toInt ∧
          c.viewer.x.toInt + c.renderDistance.toInt < 0x8000000) ∧
        -0x8000000 ≤ c.viewer.z.toInt - c.renderDistance.toInt ∧
          c.viewer.z.toInt + c.renderDistance.toInt < 0x8000000) := by
  have hvalid := (validate_eq_ok_iff c).mp hc
  have hradius := hvalid.renderDistance_nonneg
  have hspans := World.exists_surroundings_iff (w := World.empty c.worldHeight)
    hvalid.viewer_aligned hradius
  unfold Completes
  simp only [Terrain.forall_exists_generate_iff]
  constructor
  · rintro ⟨wanted, hwanted, hmade⟩
    have hfits : c.viewer.Spans c.renderDistance := hspans.mp ⟨wanted, hwanted⟩
    refine ⟨hfits, fun hbelow habove => ?_⟩
    obtain ⟨⟨hwest, heast⟩, -, hnorth, hsouth⟩ := hfits
    -- the cells of two opposite corners bound those of all columns
    obtain ⟨p, hp, hpx, hpz⟩ := exists_mem_wanted hvalid hwanted hbelow habove
      (x := .ofInt (c.viewer.x.toInt - c.renderDistance.toInt))
      (z := .ofInt (c.viewer.z.toInt - c.renderDistance.toInt))
      (by rw [toInt_ofInt32 hwest]; omega) (by rw [toInt_ofInt32 hnorth]; omega)
    obtain ⟨q, hq, hqx, hqz⟩ := exists_mem_wanted hvalid hwanted hbelow habove
      (x := .ofInt (c.viewer.x.toInt + c.renderDistance.toInt))
      (z := .ofInt (c.viewer.z.toInt + c.renderDistance.toInt))
      (by rw [toInt_ofInt32 heast]; omega) (by rw [toInt_ofInt32 hsouth]; omega)
    have hlow := hmade p hp
    have hhigh := hmade q hq
    rw [hpx, hpz, toInt_ofInt32 hwest, toInt_ofInt32 hnorth] at hlow
    rw [hqx, hqz, toInt_ofInt32 heast, toInt_ofInt32 hsouth] at hhigh
    omega
  · rintro ⟨hfits, hcells⟩
    obtain ⟨wanted, hwanted⟩ := hspans.mpr hfits
    refine ⟨wanted, hwanted, fun p hp => ?_⟩
    rw [mem_wanted_iff hvalid hwanted] at hp
    have hheight := inRange32_toInt c.worldHeight
    have haligned := hvalid.worldHeight_aligned
    unfold InRange32 at hheight
    have hcells' := hcells (by omega) (by omega)
    omega

/-- The engine of the default configuration can start. -/
theorem completes_default : ({} : Config).validate = .ok () ∧ ({} : Config).Completes := by
  have hc : ({} : Config).validate = .ok () := rfl
  refine ⟨hc, (completes_iff {} hc).mpr ⟨⟨?_, ?_, ?_⟩, fun _ _ => ?_⟩⟩ <;> decide

/-- A viewer in the topmost chunk there is a word for, far above the world. -/
def summit : Config where
  renderDistance := 1
  worldHeight := 16
  generation := .solid
  viewer := ⟨0, 0x7ffffff0, 0⟩

/-- **Accepted configurations can overflow.**  Nothing is in range of this viewer, and yet the
enumeration overflows at the positions above it. -/
theorem not_completes_summit : summit.validate = .ok () ∧
    (World.empty summit.worldHeight).surroundings summit.viewer summit.renderDistance =
      .error (.overflow .add) ∧ ¬summit.Completes := by
  have hfails : (World.empty summit.worldHeight).surroundings summit.viewer
      summit.renderDistance = .error (.overflow .add) := rfl
  refine ⟨rfl, hfails, ?_⟩
  rintro ⟨wanted, hwanted, -⟩
  rw [hfails] at hwanted
  cases hwanted

end Config

end Blockworld
