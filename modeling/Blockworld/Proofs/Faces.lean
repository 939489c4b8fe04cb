/-
# A mesh draws exactly the visible faces

Meshing composes 96 slices, one for each side and layer, and each is extracted, merged and lifted
on its own.  This module follows a face through all of it.

* `Snapshot.HasFace`: a cell has a face toward a side.  The rule looks at the cell and at the block
  it faces, and not at slices;
* `Slice.exists_quads`: the quads of one slice cover each of its faces once;
* `Snapshot.exists_sliceQuads`: so do the quads of a slice of a snapshot, and the shortcut for
  slices without faces makes no difference;
* `Snapshot.exists_quads`: a face lies in one slice only, so the quads of all slices together cover
  every face once and nothing else;
* `Snapshot.mesh_covers_faces_once`: the same of the mesh, with what each quad is drawn like.

A snapshot is `Snapshot.Sound` when all codes it holds are known and the count of its chunk is
right; the second half is what the shortcut for empty chunks relies on.
-/
import Mathlib.Tactic.Choose
import Blockworld.Mesh
import Blockworld.Proofs.Lift

namespace Blockworld

/-! ## 1. Faces of a snapshot -/

/-- The cell has a face toward the side that is to be drawn. -/
def Snapshot.HasFace (s : Snapshot) (policy : Boundary) (cell : Cell) (side : Side) : Prop :=
  (s.chunk.get cell).FaceShown (s.faced policy side cell)

/-- The number of quads of a list that cover a face. -/
def Quad.coverCount (qs : List Quad) (cell : Cell) (side : Side) : Nat :=
  qs.countP fun q => decide (q.Covers cell side)

/-- Among lists of quads of which at most one covers a face, that one decides the count. -/
theorem Quad.coverCount_flatMap {α : Type} {f : α → List Quad} {l : List α} (hl : l.Nodup) {a : α}
    (ha : a ∈ l) {cell : Cell} {side : Side}
    (hother : ∀ b ∈ l, b ≠ a → coverCount (f b) cell side = 0) :
    coverCount (l.flatMap f) cell side = coverCount (f a) cell side := by
  unfold coverCount at hother ⊢
  induction l with
  | nil => cases ha
  | cons b rest ih =>
    rw [List.flatMap_cons, List.countP_append]
    have hnot : b ∉ rest := (List.nodup_cons.mp hl).1
    rcases List.mem_cons.mp ha with rfl | ha
    · have hrest : (rest.flatMap f).countP (fun q => decide (q.Covers cell side)) = 0 := by
        rw [List.countP_eq_zero]
        intro q hq
        obtain ⟨c, hc, hqc⟩ := List.mem_flatMap.mp hq
        have hca : c ≠ a := fun h => hnot (h ▸ hc)
        exact List.countP_eq_zero.mp (hother c (List.mem_cons_of_mem _ hc) hca) q hqc
      rw [hrest, Nat.add_zero]
    · have hba : b ≠ a := fun h => hnot (h ▸ ha)
      rw [hother b List.mem_cons_self hba, Nat.zero_add]
      exact ih (List.nodup_cons.mp hl).2 ha fun c hc => hother c (List.mem_cons_of_mem _ hc)

section Gather

variable {α β : Type} {f : α → Except Fault (List β)}

theorem gather_cons_eq_ok {a : α} {rest : List α} {here there : List β} (ha : f a = .ok here)
    (hrest : gather f rest = .ok there) : gather f (a :: rest) = .ok (here ++ there) := by
  simp [gather, ha, hrest, bind, Except.bind, pure, Except.pure]

/-- Lists that all exist are gathered. -/
theorem gather_eq_ok {g : α → List β} {l : List α} (h : ∀ a ∈ l, f a = .ok (g a)) :
    gather f l = .ok (l.flatMap g) := by
  induction l with
  | nil => rfl
  | cons a rest ih =>
    rw [List.flatMap_cons]
    exact gather_cons_eq_ok (h a List.mem_cons_self)
      (ih fun b hb => h b (List.mem_cons_of_mem _ hb))

end Gather

/-! ## 2. The quads of a slice -/

namespace Slice

/-- A slice without faces has none at any place. -/
theorem isEmpty_get {s : Slice} (h : s.isEmpty = true) (i j : Fin 16) :
    (s.get i j).isEmpty = true := by
  unfold isEmpty at h
  rw [Vector.all_eq_true] at h
  exact h _ _

/-- Lifting the pieces of a list covers each face as often as they do. -/
theorem exists_gather_lift (s : Slice) (side : Side) (layer : Fin 16) {pieces : List Piece}
    (h : ∀ p ∈ pieces, p.extent.Fits) :
    ∃ qs,
      gather (fun p => (p.lift side layer.val).map ([·])) (pieces.map (Piece.patch s)) = .ok qs ∧
      (∀ q ∈ qs, ∃ p ∈ pieces, p.Lifted s side layer q) ∧
      ∀ cell t, Quad.coverCount qs cell t =
        if t = side ∧ cell.along side.axis = layer then
          pieces.countP fun p => decide
            ((cell.along side.axis.next, cell.along side.axis.next.next) ∈ p.extent.places)
        else 0 := by
  induction pieces with
  | nil =>
    refine ⟨[], rfl, by simp, fun cell t => ?_⟩
    split <;> rfl
  | cons p rest ih =>
    obtain ⟨q, hq, hlifted⟩ :=
      Piece.exists_lift (s := s) (h p List.mem_cons_self) side layer
    obtain ⟨qs, hqs, hfrom, hcount⟩ := ih fun p' hp' => h p' (List.mem_cons_of_mem _ hp')
    refine ⟨q :: qs, ?_, ?_, ?_⟩
    · exact gather_cons_eq_ok (by rw [hq]; rfl) hqs
    · intro q' hq'
      rcases List.mem_cons.mp hq' with rfl | hq'
      · exact ⟨p, List.mem_cons_self, hlifted⟩
      · obtain ⟨p', hp', hl'⟩ := hfrom q' hq'
        exact ⟨p', List.mem_cons_of_mem _ hp', hl'⟩
    · intro cell t
      have hstep : Quad.coverCount (q :: qs) cell t =
          Quad.coverCount qs cell t + if q.Covers cell t then 1 else 0 := by
        simp [Quad.coverCount, List.countP_cons]
      rw [hstep, hcount cell t]
      by_cases hat : t = side ∧ cell.along side.axis = layer
      · rw [if_pos hat, if_pos hat, List.countP_cons]
        simp [hlifted.covers, hat]
      · have hno : ¬q.Covers cell t := by
          rw [hlifted.covers]
          rintro ⟨ht, hc, -⟩
          exact hat ⟨ht, hc⟩
        rw [if_neg hat, if_neg hat, if_neg hno]

/-- **The quads of a slice cover each of its faces once** and nothing else.  Every one of them
comes from a rectangle of faces of its material. -/
theorem exists_quads {s : Slice} (hs : s.Known) :
    ∃ qs, s.quads = .ok qs ∧
      (∀ q ∈ qs, ∃ p : Piece, p.extent.Fits ∧ p.Lifted s s.side s.layer q ∧
        ∀ r ∈ p.extent.places, (s.get r.1 r.2).block.material = .ok p.material ∧
          (s.get r.1 r.2).isEmpty = false) ∧
      ∀ cell t, Quad.coverCount qs cell t =
        if t = s.side ∧ cell.along s.side.axis = s.layer ∧
          (s.get (cell.along s.side.axis.next) (cell.along s.side.axis.next.next)).isEmpty = false
        then 1 else 0 := by
  obtain ⟨pieces, hmerge, htiling⟩ := exists_merge hs
  obtain ⟨qs, hqs, hfrom, hcount⟩ := exists_gather_lift s s.side s.layer htiling.fits
  refine ⟨qs, ?_, ?_, ?_⟩
  · simp [quads, hmerge, hqs, bind, Except.bind]
  · intro q hq
    obtain ⟨p, hp, hlifted⟩ := hfrom q hq
    exact ⟨p, htiling.fits p hp, hlifted, fun r hr =>
      ⟨htiling.material p hp r hr, (htiling.isOpen hp hr).1⟩⟩
  · intro cell t
    rw [hcount, htiling.count]
    by_cases hat : t = s.side ∧ cell.along s.side.axis = s.layer
    · simp [hat, IsOpen]
    · rw [if_neg hat, if_neg fun h => hat ⟨h.1, h.2.1⟩]

end Slice

/-! ## 3. The slices of a snapshot -/

namespace Snapshot

variable {s : Snapshot}

/-- What a quad of a snapshot's mesh is: it covers at least the face of one cell, its START, which
comes before every other cell it covers on every axis; all covered cells are of its material; and
it is drawn like the face of the start, with the light of the block faced there and the liquid
level of the block itself. -/
structure Draws (s : Snapshot) (policy : Boundary) (q : Quad) : Prop where
  inChunk : q.InChunk
  material : ∀ cell side, q.Covers cell side → (s.chunk.get cell).material = .ok q.material
  start : ∃ cell side n, q.Covers cell side ∧
    (∀ cell' side', q.Covers cell' side' → side' = side ∧ ∀ d, cell.along d ≤ cell'.along d) ∧
    s.faced policy side cell = some n ∧ q.light = n.light ∧
    q.metadata = (s.chunk.get cell).level

/-- **A slice of a sound snapshot holds the faces of its layer.** -/
theorem Sound.exists_ofSnapshot (hs : s.Sound) (policy : Boundary) (side : Side) (layer : Fin 16) :
    ∃ slice, Slice.ofSnapshot s policy side layer = .ok slice ∧ slice.side = side ∧
      slice.layer = layer ∧ slice.Known ∧
      ∀ i j, ((slice.get i j).isEmpty = false ↔
          s.HasFace policy (.ofFrame side.axis layer i j) side) ∧
        ((slice.get i j).isEmpty = false →
          (slice.get i j).block = s.chunk.get (.ofFrame side.axis layer i j) ∧
          ∀ n, s.faced policy side (.ofFrame side.axis layer i j) = some n →
            (slice.get i j).light = n.light) := by
  have hplace := fun k : Fin 256 =>
    let cell := Cell.ofFrame side.axis layer (Slice.column k) (Slice.row k)
    Slice.exists_faceCell (hs.known cell) (hs.faced_known policy side cell)
  choose cell hcell hknown hface hlook using hplace
  have htable : tabulate (fun k : Fin 256 =>
      Slice.faceCell (s.chunk.get (.ofFrame side.axis layer (Slice.column k) (Slice.row k)))
        (s.beyond policy side layer (Slice.column k) (Slice.row k))) =
      .ok (Vector.ofFn cell) := by
    rw [tabulate_eq_ok_iff]
    intro k
    rw [beyond_eq_faced, hcell]
    simp
  refine ⟨⟨side, layer, Vector.ofFn cell⟩, ?_, rfl, rfl, ?_, ?_⟩
  · unfold Slice.ofSnapshot
    simp only [htable, Except.map]
  · intro i j
    simp only [Slice.get, Fin.getElem_fin, Vector.getElem_ofFn, Fin.eta]
    exact hknown _
  · intro i j
    have h1 := hface (Slice.index i j)
    have h2 := hlook (Slice.index i j)
    rw [Slice.column_index, Slice.row_index] at h1 h2
    simp only [Slice.get, Fin.getElem_fin, Vector.getElem_ofFn, Fin.eta]
    exact ⟨h1, h2⟩

/-- A quad that comes from a rectangle of a slice draws what the snapshot shows. -/
theorem draws_of_lifted {policy : Boundary} {side : Side} {layer : Fin 16} {slice : Slice}
    (hslice : ∀ i j, ((slice.get i j).isEmpty = false ↔
          s.HasFace policy (.ofFrame side.axis layer i j) side) ∧
        ((slice.get i j).isEmpty = false →
          (slice.get i j).block = s.chunk.get (.ofFrame side.axis layer i j) ∧
          ∀ n, s.faced policy side (.ofFrame side.axis layer i j) = some n →
            (slice.get i j).light = n.light))
    {p : Slice.Piece} (hfits : p.extent.Fits) {q : Quad} (hq : p.Lifted slice side layer q)
    (hplaces : ∀ r ∈ p.extent.places, (slice.get r.1 r.2).block.material = .ok p.material ∧
      (slice.get r.1 r.2).isEmpty = false) : s.Draws policy q where
  inChunk := hq.inChunk
  material := by
    intro cell t hcov
    obtain ⟨rfl, rfl, hmem⟩ := (hq.covers cell t).mp hcov
    obtain ⟨hmat, hface⟩ := hplaces _ hmem
    obtain ⟨hblock, -⟩ := (hslice _ _).2 hface
    rw [hblock, Cell.ofFrame_along] at hmat
    rw [hmat, hq.material]
  start := by
    obtain ⟨-, hface⟩ := hplaces _ hfits.mem_places
    obtain ⟨hblock, hlight⟩ := (hslice _ _).2 hface
    obtain ⟨-, n, hn, -⟩ := (hslice _ _).1.mp hface
    refine ⟨.ofFrame side.axis layer p.extent.i p.extent.j, side, n, ?_, ?_, hn, ?_, ?_⟩
    · rw [hq.covers]
      simp [hfits.mem_places]
    · intro cell t hcov
      obtain ⟨rfl, rfl, hmem⟩ := (hq.covers cell t).mp hcov
      obtain ⟨⟨hi, -⟩, hj, -⟩ := Extent.mem_places.mp hmem
      refine ⟨rfl, fun d => ?_⟩
      rcases Axis.eq_or_next t.axis d with rfl | rfl | rfl
      · exact Fin.le_of_eq (Cell.along_ofFrame ..)
      · rw [Cell.along_ofFrame_next]
        exact hi
      · rw [Cell.along_ofFrame_next_next]
        exact hj
    · rw [hq.light, hlight n hn]
    · rw [hq.metadata, hblock]

/-- **The quads of a layer cover each of its faces once** and nothing else.  A slice without faces
is not merged, and has no quads either way. -/
theorem Sound.exists_sliceQuads (hs : s.Sound) (policy : Boundary) (side : Side) (layer : Fin 16) :
    ∃ qs, s.sliceQuads policy side layer = .ok qs ∧ (∀ q ∈ qs, s.Draws policy q) ∧
      ∀ cell t, (s.HasFace policy cell t → Quad.coverCount qs cell t =
          if t = side ∧ cell.along side.axis = layer then 1 else 0) ∧
        (¬s.HasFace policy cell t → Quad.coverCount qs cell t = 0) := by
  obtain ⟨slice, hslice, hside, hlayer, hknown, hfaces⟩ := hs.exists_ofSnapshot policy side layer
  have hface : ∀ cell : Cell, cell.along side.axis = layer →
      ((slice.get (cell.along side.axis.next) (cell.along side.axis.next.next)).isEmpty = false ↔
        s.HasFace policy cell side) := by
    rintro cell rfl
    rw [(hfaces _ _).1, Cell.ofFrame_along]
  unfold sliceQuads
  simp only [hslice, bind, Except.bind]
  cases hempty : slice.isEmpty with
  | true =>
    refine ⟨[], rfl, by simp, fun cell t => ⟨fun h => ?_, fun _ => rfl⟩⟩
    rw [if_neg]
    · rfl
    · rintro ⟨rfl, hc⟩
      have := (hface cell hc).mpr h
      rw [Slice.isEmpty_get hempty] at this
      cases this
  | false =>
    obtain ⟨qs, hqs, hfrom, hcount⟩ := Slice.exists_quads hknown
    rw [hside, hlayer] at hfrom hcount
    refine ⟨qs, hqs, ?_, fun cell t => ⟨fun h => ?_, fun h => ?_⟩⟩
    · intro q hq
      obtain ⟨p, hfits, hlifted, hplaces⟩ := hfrom q hq
      exact draws_of_lifted hfaces hfits hlifted hplaces
    · rw [hcount]
      by_cases hat : t = side ∧ cell.along side.axis = layer
      · obtain ⟨rfl, hc⟩ := hat
        simp [hc, (hface cell hc).mpr h]
      · rw [if_neg hat, if_neg fun h => hat ⟨h.1, h.2.1⟩]
    · rw [hcount, if_neg]
      rintro ⟨rfl, hc, hf⟩
      exact h ((hface cell hc).mp hf)

/-! ## 4. All slices together -/

/-- **The quads of all slices cover every face once** and nothing else. -/
theorem Sound.exists_quads (hs : s.Sound) (policy : Boundary) :
    ∃ qs, s.quads policy = .ok qs ∧ (∀ q ∈ qs, s.Draws policy q) ∧
      ∀ cell t, (s.HasFace policy cell t → Quad.coverCount qs cell t = 1) ∧
        (¬s.HasFace policy cell t → Quad.coverCount qs cell t = 0) := by
  choose quadsOf hquads hdraws hcount using fun side layer => hs.exists_sliceQuads policy side layer
  have hsides : ∀ side ∈ Side.all, gather (s.sliceQuads policy side) (List.finRange 16) =
      .ok ((List.finRange 16).flatMap (quadsOf side)) :=
    fun side _ => gather_eq_ok fun layer _ => hquads side layer
  refine ⟨_, gather_eq_ok hsides, ?_, fun cell t => ⟨fun h => ?_, fun h => ?_⟩⟩
  · intro q hq
    obtain ⟨side, -, hq⟩ := List.mem_flatMap.mp hq
    obtain ⟨layer, -, hq⟩ := List.mem_flatMap.mp hq
    exact hdraws side layer q hq
  · -- the face lies in one layer of one side, and the other slices do not cover it
    have hlayer : Quad.coverCount ((List.finRange 16).flatMap (quadsOf t)) cell t = 1 := by
      rw [Quad.coverCount_flatMap (List.nodup_finRange 16) (List.mem_finRange (cell.along t.axis)),
        (hcount t _ cell t).1 h]
      · simp
      · intro layer _ hne
        rw [(hcount t layer cell t).1 h, if_neg fun hc => hne hc.2.symm]
    rw [Quad.coverCount_flatMap Side.nodup_all (Side.mem_all t), hlayer]
    intro side _ hne
    refine List.countP_eq_zero.mpr fun q hq => ?_
    obtain ⟨layer, -, hq⟩ := List.mem_flatMap.mp hq
    have hzero : Quad.coverCount (quadsOf side layer) cell t = 0 := by
      rw [(hcount side layer cell t).1 h, if_neg fun hc => hne hc.1.symm]
    exact List.countP_eq_zero.mp hzero q hq
  · refine List.countP_eq_zero.mpr fun q hq => ?_
    obtain ⟨side, -, hq⟩ := List.mem_flatMap.mp hq
    obtain ⟨layer, -, hq⟩ := List.mem_flatMap.mp hq
    exact List.countP_eq_zero.mp ((hcount side layer cell t).2 h) q hq

/-- A chunk that counts no solid cell has no faces. -/
theorem Sound.not_hasFace_of_isEmpty (hs : s.Sound) (h : s.chunk.isEmpty = true)
    {policy : Boundary} {cell : Cell} {side : Side} : ¬s.HasFace policy cell side := by
  rintro ⟨hair, -⟩
  rw [hs.coherent.isAir_of_isEmpty h cell] at hair
  cases hair

/-- **A sound snapshot is meshed**, and the quads of the mesh cover every face once and nothing
else.  The shortcut for chunks without solid cells makes no difference. -/
theorem Sound.exists_mesh (hs : s.Sound) (policy : Boundary) :
    ∃ qs, s.mesh policy = .ok (Mesh.ofQuads s.coords qs) ∧ (∀ q ∈ qs, s.Draws policy q) ∧
      ∀ cell t, (s.HasFace policy cell t → Quad.coverCount qs cell t = 1) ∧
        (¬s.HasFace policy cell t → Quad.coverCount qs cell t = 0) := by
  unfold mesh
  cases hempty : s.chunk.isEmpty with
  | true =>
    refine ⟨[], rfl, by simp, fun cell t => ⟨fun h => ?_, fun _ => rfl⟩⟩
    exact absurd h (hs.not_hasFace_of_isEmpty hempty)
  | false =>
    obtain ⟨qs, hqs, hdraws, hcount⟩ := hs.exists_quads policy
    exact ⟨qs, by simp [hqs, Except.map], hdraws, hcount⟩

/-! ## 5. The mesh -/

end Snapshot

/-- Separating quads by drawing pass keeps how often a face is covered. -/
theorem Mesh.coverCount_ofQuads (coords : ChunkPos) (qs : List Quad) (cell : Cell) (side : Side) :
    Quad.coverCount ((ofQuads coords qs).opaqueQuads ++ (ofQuads coords qs).translucentQuads)
      cell side = Quad.coverCount qs cell side := by
  have hperm := List.filter_append_perm (fun q : Quad => !q.isTranslucent) qs
  simp only [Bool.not_not] at hperm
  exact hperm.countP_eq _

theorem Mesh.mem_opaqueQuads {coords : ChunkPos} {qs : List Quad} {q : Quad} :
    q ∈ (ofQuads coords qs).opaqueQuads ↔ q ∈ qs ∧ q.isTranslucent = false := by
  simp [ofQuads]

theorem Mesh.mem_translucentQuads {coords : ChunkPos} {qs : List Quad} {q : Quad} :
    q ∈ (ofQuads coords qs).translucentQuads ↔ q ∈ qs ∧ q.isTranslucent = true := by
  simp [ofQuads]

theorem Mesh.hasQuads_ofQuads (coords : ChunkPos) (qs : List Quad) :
    (ofQuads coords qs).hasQuads = true ↔ qs ≠ [] := by
  cases qs with
  | nil => simp [ofQuads, hasQuads]
  | cons q rest => cases h : q.isTranslucent <;> simp [ofQuads, hasQuads, h]

namespace Snapshot

/-- **A mesh is visible exactly if a face is.** -/
theorem Sound.hasQuads_iff {s : Snapshot} (hs : s.Sound) {policy : Boundary} {m : Mesh}
    (hm : s.mesh policy = .ok m) :
    m.hasQuads = true ↔ ∃ cell side, s.HasFace policy cell side := by
  obtain ⟨qs, hmesh, hdraws, hcount⟩ := hs.exists_mesh policy
  rw [hm] at hmesh
  cases hmesh
  rw [Mesh.hasQuads_ofQuads]
  constructor
  · intro hne
    obtain ⟨q, hq⟩ := List.exists_mem_of_ne_nil qs hne
    obtain ⟨cell, side, -, hcovers, -⟩ := (hdraws q hq).start
    refine ⟨cell, side, Classical.byContradiction fun hnone => ?_⟩
    have hzero := List.countP_eq_zero.mp ((hcount cell side).2 hnone) q hq
    exact hzero (decide_eq_true hcovers)
  · rintro ⟨cell, side, hface⟩ rfl
    cases (hcount cell side).1 hface

/-- **A mesh draws exactly the visible faces.**  On known codes meshing succeeds; every face that
is to be drawn is covered by exactly one quad of the two lists, and no other face by any; every
quad stays inside the chunk, has the material of the cells it covers and is drawn like the face of
its start; and it is in the translucent list exactly if its material is translucent. -/
theorem mesh_covers_faces_once (s : Snapshot) (policy : Boundary) (hbuilt : s.chunk.Built)
    (hknown : s.chunk.Known) (hneighbors : ∀ side n, s.neighbors.get side = some n → n.Known) :
    ∃ m, s.mesh policy = .ok m ∧ m.coords = s.coords ∧
      (∀ cell side,
        (s.HasFace policy cell side →
          Quad.coverCount (m.opaqueQuads ++ m.translucentQuads) cell side = 1) ∧
        (¬s.HasFace policy cell side →
          Quad.coverCount (m.opaqueQuads ++ m.translucentQuads) cell side = 0)) ∧
      ∀ q ∈ m.opaqueQuads ++ m.translucentQuads, s.Draws policy q ∧
        (q ∈ m.translucentQuads ↔ q.material.isTranslucent = true) ∧
        (q ∈ m.opaqueQuads ↔ q.material.isTranslucent = false) := by
  have hs : s.Sound := ⟨hbuilt.coherent, hknown, hneighbors⟩
  obtain ⟨qs, hmesh, hdraws, hcount⟩ := hs.exists_mesh policy
  refine ⟨_, hmesh, rfl, fun cell side => ?_, fun q hq => ?_⟩
  · rw [Mesh.coverCount_ofQuads]
    exact hcount cell side
  · have hmem : q ∈ qs := by
      rcases List.mem_append.mp hq with hq | hq
      · exact (Mesh.mem_opaqueQuads.mp hq).1
      · exact (Mesh.mem_translucentQuads.mp hq).1
    rw [Mesh.mem_translucentQuads, Mesh.mem_opaqueQuads]
    exact ⟨hdraws q hmem, and_iff_right hmem, and_iff_right hmem⟩

/-- A cube of stone below a cube of water, with nothing known on the other sides. -/
def seabed : Snapshot where
  coords := .zero
  chunk := .filled .zero (.ofMaterial .stone)
  neighbors := .ofFn fun side =>
    if side = .up then some (.filled .zero (.ofLevels .water 15 3)) else none

/-- The stone shows its face to the water, and hides the one toward the unknown. -/
theorem seabed_covers_faces_once :
    seabed.chunk.Built ∧ seabed.chunk.Known ∧
      (∀ side n, seabed.neighbors.get side = some n → n.Known) ∧
      ∃ m, seabed.mesh .hidden = .ok m ∧
        Quad.coverCount (m.opaqueQuads ++ m.translucentQuads) ⟨4, 15, 9⟩ .up = 1 ∧
        Quad.coverCount (m.opaqueQuads ++ m.translucentQuads) ⟨4, 0, 9⟩ .down = 0 := by
  have hbuilt : seabed.chunk.Built := .filled _ _
  have hknown : seabed.chunk.Known := Chunk.known_filled (Block.known_ofMaterial _)
  have hneighbors : ∀ side n, seabed.neighbors.get side = some n → n.Known := by
    intro side n h
    simp only [seabed, PerSide.get_ofFn] at h
    split at h
    · cases h
      exact Chunk.known_filled (Block.known_ofLevels _ _ _)
    · cases h
  refine ⟨hbuilt, hknown, hneighbors, ?_⟩
  obtain ⟨m, hm, -, hcount, -⟩ :=
    mesh_covers_faces_once seabed .hidden hbuilt hknown hneighbors
  have hstone : seabed.chunk.get ⟨4, 15, 9⟩ = .ofMaterial .stone := Chunk.get_filled _ _ _
  have hwater : seabed.faced .hidden .up ⟨4, 15, 9⟩ = some (.ofLevels .water 15 3) :=
    congrArg some (Chunk.get_filled _ _ _)
  refine ⟨m, hm, (hcount _ _).1 ⟨?_, _, hwater, ?_⟩, (hcount _ _).2 ?_⟩
  · rw [hstone]
    rfl
  · rw [hstone]
    rfl
  · rintro ⟨-, n, hn, -⟩
    cases hn

end Snapshot

end Blockworld
