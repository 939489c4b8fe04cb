/-
# What the boundary policy decides

A snapshot need not know the neighbour beyond every side, and the boundary policy says what a border
toward the unknown looks at.  This module says what the policy decides, and that it decides nothing
else:

* under `exposed` the unknown is open sky.  Meshing gives what it gives, under any policy, once
  chunks of lit air stand in for the neighbours that are missing (`Snapshot.mesh_fillUnknown`);
* under `hidden` the layers that look into the unknown have no quads, and every other layer has the
  quads it has under `exposed` (`Snapshot.sliceQuads_hidden`).

So the quads under `hidden` are those under `exposed` without the quads of some layers.  Which layer
a quad comes from can be read off the quad, by its normal and its plane (`Quad.LiesOn`); the quads
that are missing are therefore told apart by themselves (`Snapshot.OnUnknownBorder`), and leaving
them out of either list of the mesh gives the other mesh (`Snapshot.policies_differ_at_unknown`).
-/
import Mathlib.Data.List.Basic
import Blockworld.Proofs.Corruption

namespace Blockworld

/-! ## 1. The layer of a quad -/

/-- The quad points through a side and lies on the outer face of a layer toward it. -/
def Quad.LiesOn (q : Quad) (side : Side) (layer : Fin 16) : Prop :=
  q.normal = side.normal ∧
    (q.corner1.along side.axis).toInt = side.plane layer ∧
    (q.corner2.along side.axis).toInt = side.plane layer

instance (q : Quad) (side : Side) (layer : Fin 16) : Decidable (q.LiesOn side layer) :=
  inferInstanceAs (Decidable (_ ∧ _))

theorem Quad.Covers.liesOn {q : Quad} {cell : Cell} {side : Side} (h : q.Covers cell side) :
    q.LiesOn side (cell.along side.axis) :=
  ⟨h.1, h.2.1⟩

/-- A quad lies on one layer of one side only. -/
theorem Quad.LiesOn.unique {q : Quad} {side side' : Side} {layer layer' : Fin 16}
    (h : q.LiesOn side layer) (h' : q.LiesOn side' layer') : side' = side ∧ layer' = layer := by
  obtain ⟨hnormal, hplane, -⟩ := h
  obtain ⟨hnormal', hplane', -⟩ := h'
  obtain rfl : side' = side := Side.normal_injective (hnormal'.symm.trans hnormal)
  have hsame : side'.plane layer' = side'.plane layer := hplane'.symm.trans hplane
  unfold Side.plane at hsame
  exact ⟨rfl, Fin.ext (by omega)⟩

namespace Snapshot

/-- **The quads of a layer lie on that layer.** -/
theorem Sound.liesOn_of_mem {s : Snapshot} (hs : s.Sound) {policy : Boundary} {side : Side}
    {layer : Fin 16} {qs : List Quad} (hqs : s.sliceQuads policy side layer = .ok qs) {q : Quad}
    (hq : q ∈ qs) : q.LiesOn side layer := by
  obtain ⟨qs', hqs', hdraws, hcount⟩ := hs.exists_sliceQuads policy side layer
  obtain rfl : qs' = qs := Except.ok.inj (hqs'.symm.trans hqs)
  obtain ⟨cell, t, n, hcovers, -⟩ := (hdraws q hq).start
  -- the face at its start is counted, and only faces of this layer are
  have hpos : 0 < Quad.coverCount qs' cell t :=
    List.countP_pos_iff.mpr ⟨q, hq, decide_eq_true hcovers⟩
  have hface : s.HasFace policy cell t := by
    by_contra hno
    exact Nat.ne_of_gt hpos ((hcount cell t).2 hno)
  rw [(hcount cell t).1 hface] at hpos
  split at hpos
  · next hat =>
    obtain ⟨rfl, rfl⟩ := hat
    exact hcovers.liesOn
  · exact absurd hpos (Nat.lt_irrefl 0)

end Snapshot

/-! ## 2. Layers that look into the unknown -/

/-- What is seen of the unknown. -/
def Boundary.unknown : Boundary → Option Block
  | hidden => none
  | exposed => some Block.sky

/-- A place that looks at nothing has no face. -/
theorem Slice.faceCell_none (b : Block) : faceCell b none = .ok .empty := ite_self _

@[simp] theorem Slice.isEmpty_empty (side : Side) (layer : Fin 16) :
    (empty side layer).isEmpty = true := by
  unfold isEmpty empty
  simp [SliceCell.isEmpty, SliceCell.empty, Block.isAir, Block.air]

namespace Snapshot

variable {s t : Snapshot} {policy policy' : Boundary} {side : Side} {layer : Fin 16}

/-- The layer is the last one before a side beyond which no neighbour is known. -/
def FacesUnknown (s : Snapshot) (side : Side) (layer : Fin 16) : Prop :=
  layer = side.border ∧ s.neighbors.get side = none

instance (s : Snapshot) (side : Side) (layer : Fin 16) : Decidable (s.FacesUnknown side layer) :=
  inferInstanceAs (Decidable (_ ∧ _))

theorem faced_of_facesUnknown {cell : Cell} (h : s.FacesUnknown side (cell.along side.axis)) :
    s.faced policy side cell = policy.unknown := by
  unfold faced
  rw [if_pos h.1, h.2]
  cases policy <;> rfl

/-- A cell that does not look into the unknown looks at the same block under every policy. -/
theorem faced_of_not_facesUnknown {cell : Cell}
    (h : ¬s.FacesUnknown side (cell.along side.axis)) :
    s.faced policy side cell = s.faced policy' side cell := by
  unfold faced
  by_cases hborder : cell.along side.axis = side.border
  · cases hn : s.neighbors.get side with
    | some n => rfl
    | none => exact absurd ⟨hborder, hn⟩ h
  · rw [if_neg hborder, if_neg hborder]

/-- Layers whose places are filled alike have the same quads. -/
theorem sliceQuads_congr
    (h : ∀ cell : Cell, cell.along side.axis = layer →
      Slice.faceCell (s.chunk.get cell) (s.faced policy side cell) =
        Slice.faceCell (t.chunk.get cell) (t.faced policy' side cell)) :
    s.sliceQuads policy side layer = t.sliceQuads policy' side layer := by
  have hplaces := fun i j => h (.ofFrame side.axis layer i j) (Cell.along_ofFrame ..)
  unfold sliceQuads Slice.ofSnapshot
  simp only [beyond_eq_faced, hplaces]

/-- A layer none of whose places is filled makes a slice without faces. -/
theorem ofSnapshot_eq_empty
    (h : ∀ i j, Slice.faceCell (s.chunk.get (.ofFrame side.axis layer i j))
      (s.faced policy side (.ofFrame side.axis layer i j)) = .ok .empty) :
    Slice.ofSnapshot s policy side layer = .ok (.empty side layer) := by
  have htable : tabulate (fun _ : Fin 256 => (.ok .empty : Except Fault SliceCell)) =
      .ok (.replicate 256 .empty) := tabulate_eq_ok_iff.mpr fun k => by simp
  unfold Slice.ofSnapshot
  simp only [beyond_eq_faced, h, htable, Except.map, Slice.empty]

/-- A slice that looks into the unknown has no faces if the unknown is hidden. -/
theorem ofSnapshot_hidden (h : s.FacesUnknown side layer) :
    Slice.ofSnapshot s .hidden side layer = .ok (.empty side layer) := by
  refine ofSnapshot_eq_empty fun i j => ?_
  rw [faced_of_facesUnknown (by rwa [Cell.along_ofFrame])]
  exact Slice.faceCell_none _

/-- **Hiding the unknown leaves its layers without quads** and all other layers as they are. -/
theorem sliceQuads_hidden (s : Snapshot) (side : Side) (layer : Fin 16) :
    s.sliceQuads .hidden side layer =
      if s.FacesUnknown side layer then .ok [] else s.sliceQuads .exposed side layer := by
  split
  · next hunknown =>
    unfold sliceQuads
    simp only [ofSnapshot_hidden hunknown, bind, Except.bind, Slice.isEmpty_empty, if_true]
    rfl
  · next hknown =>
    refine sliceQuads_congr fun cell hcell => ?_
    rw [faced_of_not_facesUnknown (by rwa [hcell])]

end Snapshot

/-! ## 3. Open sky for the unknown -/

/-- Every cell is air at full light. -/
def Chunk.OpenSky (c : Chunk) : Prop :=
  ∀ cell, (c.get cell).isAir = true ∧ (c.get cell).light = fullLight

theorem Chunk.openSky_filled (position : ChunkPos) : (filled position Block.sky).OpenSky := by
  intro cell
  rw [get_filled]
  exact ⟨rfl, rfl⟩

/-- Of air only the light matters to what looks at it. -/
theorem Slice.faceCell_of_isAir (b : Block) {n n' : Block} (hn : n.isAir = true)
    (hn' : n'.isAir = true) (hlight : n.light = n'.light) :
    faceCell b (some n) = faceCell b (some n') := by
  unfold faceCell
  simp only [showsFace_of_isAir hn, showsFace_of_isAir hn', hlight]

namespace Snapshot

variable {s t : Snapshot} {policy policy' : Boundary} {side : Side} {layer : Fin 16}

/-- The same snapshot with chunks put in for the neighbours that are not known. -/
def fillUnknown (s : Snapshot) (fill : Side → Chunk) : Snapshot :=
  { s with neighbors := .ofFn fun side => some ((s.neighbors.get side).getD (fill side)) }

/-- A border toward the unknown looks at the chunk put in there. -/
theorem faced_fillUnknown_of_facesUnknown {fill : Side → Chunk} {cell : Cell}
    (h : s.FacesUnknown side (cell.along side.axis)) :
    (s.fillUnknown fill).faced policy side cell = some ((fill side).get (cell.across side)) := by
  obtain ⟨hborder, hn⟩ := h
  refine faced_of_border hborder ?_
  simp [fillUnknown, hn]

/-- What is known is looked at as before. -/
theorem faced_fillUnknown_of_not_facesUnknown {fill : Side → Chunk} {cell : Cell}
    (h : ¬s.FacesUnknown side (cell.along side.axis)) :
    (s.fillUnknown fill).faced policy side cell = s.faced policy' side cell := by
  by_cases hborder : cell.along side.axis = side.border
  · obtain ⟨n, hn⟩ := Option.ne_none_iff_exists'.mp fun hnone => h ⟨hborder, hnone⟩
    rw [faced_of_border hborder hn]
    refine faced_of_border hborder ?_
    simp [fillUnknown, hn]
  · rw [faced_of_ne_border hborder, faced_of_ne_border hborder]
    rfl

/-- Snapshots of one chunk whose layers have the same quads have the same mesh. -/
theorem mesh_eq_of_sliceQuads (hcoords : s.coords = t.coords) (hchunk : s.chunk = t.chunk)
    (h : ∀ side layer, s.sliceQuads policy side layer = t.sliceQuads policy' side layer) :
    s.mesh policy = t.mesh policy' := by
  have hquads : s.quads policy = t.quads policy' := by
    unfold quads
    rw [funext₂ h]
  unfold mesh
  rw [hcoords, hchunk, hquads]

/-- **Exposing the unknown is meshing against open sky**, whichever policy that is done under.  This
holds on corrupt codes too: the two fail alike. -/
theorem mesh_fillUnknown (s : Snapshot) {fill : Side → Chunk}
    (hfill : ∀ side, (fill side).OpenSky) (policy : Boundary) :
    (s.fillUnknown fill).mesh policy = s.mesh .exposed := by
  refine mesh_eq_of_sliceQuads rfl rfl fun side layer => sliceQuads_congr fun cell _ => ?_
  by_cases h : s.FacesUnknown side (cell.along side.axis)
  · rw [faced_fillUnknown_of_facesUnknown h, faced_of_facesUnknown h]
    obtain ⟨hair, hlight⟩ := hfill side (cell.across side)
    exact Slice.faceCell_of_isAir _ hair rfl hlight
  · rw [faced_fillUnknown_of_not_facesUnknown h]
    rfl

/-! ## 4. The two policies -/

/-- The quad points through a side beyond which no neighbour is known, and lies on the border of the
chunk toward that side. -/
def OnUnknownBorder (s : Snapshot) (q : Quad) : Prop :=
  ∃ side ∈ Side.all, s.neighbors.get side = none ∧ q.LiesOn side side.border

instance (s : Snapshot) (q : Quad) : Decidable (s.OnUnknownBorder q) :=
  inferInstanceAs (Decidable (∃ side ∈ Side.all, _))

/-- A quad of a layer lies on a border toward the unknown exactly if the layer looks there. -/
theorem onUnknownBorder_iff {q : Quad} (hq : q.LiesOn side layer) :
    s.OnUnknownBorder q ↔ s.FacesUnknown side layer := by
  constructor
  · rintro ⟨side', -, hn, hborder⟩
    obtain ⟨rfl, rfl⟩ := hq.unique hborder
    exact ⟨rfl, hn⟩
  · rintro ⟨rfl, hn⟩
    exact ⟨side, side.mem_all, hn, hq⟩

/-- **Hiding the unknown leaves out the quads on its borders**, and keeps all others in their
order. -/
theorem Sound.exists_quads_hidden (hs : s.Sound) :
    ∃ qs, s.quads .exposed = .ok qs ∧
      s.quads .hidden = .ok (qs.filter fun q => !decide (s.OnUnknownBorder q)) := by
  choose exposed hexposed _ using fun side layer => hs.exists_sliceQuads .exposed side layer
  have hhidden : ∀ side layer, s.sliceQuads .hidden side layer =
      .ok ((exposed side layer).filter fun q => !decide (s.OnUnknownBorder q)) := by
    intro side layer
    have hborder : ∀ q ∈ exposed side layer,
        s.OnUnknownBorder q ↔ s.FacesUnknown side layer := fun q hq =>
      onUnknownBorder_iff (hs.liesOn_of_mem (hexposed side layer) hq)
    rw [sliceQuads_hidden, hexposed]
    split
    · next h =>
      rw [List.filter_eq_nil_iff.mpr]
      intro q hq
      simp [(hborder q hq).mpr h]
    · next h =>
      rw [List.filter_eq_self.mpr]
      intro q hq
      simp [mt (hborder q hq).mp h]
  refine ⟨_, gather_eq_ok fun side _ => gather_eq_ok fun layer _ => hexposed side layer, ?_⟩
  rw [List.filter_flatMap]
  refine gather_eq_ok fun side _ => ?_
  rw [List.filter_flatMap]
  exact gather_eq_ok fun layer _ => hhidden side layer

/-- The meshes under the two policies come from lists of quads of which one leaves out the quads on
the borders toward the unknown. -/
theorem Sound.exists_mesh_hidden (hs : s.Sound) :
    ∃ qs, s.mesh .exposed = .ok (.ofQuads s.coords qs) ∧
      s.mesh .hidden =
        .ok (.ofQuads s.coords (qs.filter fun q => !decide (s.OnUnknownBorder q))) := by
  unfold mesh
  cases s.chunk.isEmpty with
  | true => exact ⟨[], rfl, rfl⟩
  | false =>
    obtain ⟨qs, hexposed, hhidden⟩ := hs.exists_quads_hidden
    refine ⟨qs, ?_, ?_⟩
    · rw [hexposed]
      rfl
    · rw [hhidden]
      rfl

/-- A mesh covers each face once and nothing else. -/
theorem Sound.coverCount_mesh (hs : s.Sound) {m : Mesh} (hm : s.mesh policy = .ok m) (cell : Cell)
    (side : Side) :
    (s.HasFace policy cell side →
        Quad.coverCount (m.opaqueQuads ++ m.translucentQuads) cell side = 1) ∧
      (¬s.HasFace policy cell side →
        Quad.coverCount (m.opaqueQuads ++ m.translucentQuads) cell side = 0) := by
  obtain ⟨qs, hqs, -, hcount⟩ := hs.exists_mesh policy
  obtain rfl : Mesh.ofQuads s.coords qs = m := Except.ok.inj (hqs.symm.trans hm)
  rw [Mesh.coverCount_ofQuads]
  exact hcount cell side

/-- A cell that is not air has a face toward the unknown exactly if the unknown is exposed. -/
theorem hasFace_iff_of_facesUnknown {cell : Cell} (h : s.FacesUnknown side (cell.along side.axis))
    (hair : (s.chunk.get cell).isAir = false) :
    s.HasFace policy cell side ↔ policy = .exposed := by
  unfold HasFace
  rw [faced_of_facesUnknown h]
  cases policy with
  | hidden =>
    refine iff_of_false ?_ (by decide)
    rintro ⟨-, n, hn, -⟩
    cases hn
  | exposed => exact iff_of_true ⟨hair, _, rfl, Slice.showsFace_of_isAir rfl⟩ rfl

/-- **The two boundary policies differ at unknown borders only.**  On known codes both meshes exist;
each list of the one under `hidden` is the list under `exposed` without the quads that lie on a
border toward an unknown neighbour, in the same order; every face toward the unknown is covered by
exactly one quad under `exposed` and by none under `hidden`; and the mesh under `exposed` is the
mesh, under either policy, of the snapshot with open sky for every unknown neighbour. -/
theorem policies_differ_at_unknown (s : Snapshot) (hbuilt : s.chunk.Built) (hknown : s.chunk.Known)
    (hneighbors : ∀ side n, s.neighbors.get side = some n → n.Known) :
    ∃ hidden exposed, s.mesh .hidden = .ok hidden ∧ s.mesh .exposed = .ok exposed ∧
      hidden.coords = exposed.coords ∧
      hidden.opaqueQuads =
        exposed.opaqueQuads.filter (fun q => !decide (s.OnUnknownBorder q)) ∧
      hidden.translucentQuads =
        exposed.translucentQuads.filter (fun q => !decide (s.OnUnknownBorder q)) ∧
      (∀ cell side, s.FacesUnknown side (cell.along side.axis) →
        (s.chunk.get cell).isAir = false →
        Quad.coverCount (exposed.opaqueQuads ++ exposed.translucentQuads) cell side = 1 ∧
          Quad.coverCount (hidden.opaqueQuads ++ hidden.translucentQuads) cell side = 0) ∧
      ∀ fill : Side → Chunk, (∀ side, (fill side).OpenSky) → ∀ policy,
        (s.fillUnknown fill).mesh policy = .ok exposed := by
  have hs : s.Sound := ⟨hbuilt.coherent, hknown, hneighbors⟩
  obtain ⟨qs, hexposed, hhidden⟩ := hs.exists_mesh_hidden
  refine ⟨_, _, hhidden, hexposed, rfl, List.filter_comm .., List.filter_comm .., ?_, ?_⟩
  · intro cell side hunknown hair
    have hface : ∀ policy, s.HasFace policy cell side ↔ policy = .exposed :=
      fun _ => hasFace_iff_of_facesUnknown hunknown hair
    refine ⟨(hs.coverCount_mesh hexposed cell side).1 ((hface _).mpr rfl),
      (hs.coverCount_mesh hhidden cell side).2 fun h => ?_⟩
    exact absurd ((hface _).mp h) (by decide)
  · intro fill hfill policy
    rw [s.mesh_fillUnknown hfill, hexposed]

/-- A cube of glass on a cube of water, with nothing known on the other sides. -/
def buoy : Snapshot where
  coords := .zero
  chunk := .filled .zero (.ofMaterial .glass)
  neighbors := ⟨none, none, none, none, none, some (.filled .zero (.ofMaterial .water))⟩

/-- The glass is left open toward the unknown, or closed against the sky there. -/
theorem buoy_policies_differ :
    buoy.chunk.Built ∧ buoy.chunk.Known ∧
      (∀ side n, buoy.neighbors.get side = some n → n.Known) ∧
      ∃ hidden exposed, buoy.mesh .hidden = .ok hidden ∧ buoy.mesh .exposed = .ok exposed ∧
        (∀ q ∈ hidden.translucentQuads, ¬q.LiesOn .up 15) ∧
        Quad.coverCount (exposed.opaqueQuads ++ exposed.translucentQuads) ⟨4, 15, 9⟩ .up = 1 ∧
        (buoy.fillUnknown fun _ => .filled .zero Block.sky).mesh .hidden = .ok exposed := by
  have hbuilt : buoy.chunk.Built := .filled _ _
  have hknown : buoy.chunk.Known := Chunk.known_filled (Block.known_ofMaterial _)
  have hneighbors : ∀ side n, buoy.neighbors.get side = some n → n.Known := by
    intro side n h
    cases side <;> cases h
    exact Chunk.known_filled (Block.known_ofMaterial _)
  obtain ⟨hidden, exposed, hhidden, hexposed, -, -, htranslucent, hcover, hsky⟩ :=
    policies_differ_at_unknown buoy hbuilt hknown hneighbors
  have hglass : (buoy.chunk.get ⟨4, 15, 9⟩).isAir = false := by
    rw [show buoy.chunk.get ⟨4, 15, 9⟩ = .ofMaterial .glass from Chunk.get_filled _ _ _]
    rfl
  refine ⟨hbuilt, hknown, hneighbors, hidden, exposed, hhidden, hexposed, fun q hq hup => ?_,
    (hcover ⟨4, 15, 9⟩ .up ⟨rfl, rfl⟩ hglass).1, hsky _ (fun _ => Chunk.openSky_filled _) .hidden⟩
  rw [htranslucent, List.mem_filter] at hq
  have hborder : buoy.OnUnknownBorder q := (onUnknownBorder_iff hup).mpr ⟨rfl, rfl⟩
  simp [hborder] at hq

end Snapshot

end Blockworld
