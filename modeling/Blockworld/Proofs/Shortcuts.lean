/-
# Meshing without shortcuts

Meshing leaves out work that would find nothing: a chunk that counts no solid cell is not sliced,
and a slice without faces is not merged.  The plain way (`Snapshot.plainMesh`) takes neither
shortcut.  It goes through all 96 layers, merges and lifts each of them, and separates the quads at
the end.

* `Snapshot.quads_eq_plainQuads`: the shortcut for slices makes no difference, for no snapshot,
  because merging a slice without faces yields no patch;
* `Snapshot.plainQuads_of_isEmpty`: nor does the one for chunks, if the count of the chunk is right.
  Air has no face whatever its light is, and does not look at what lies across, so that neighbours
  full of corrupt codes are never decoded;
* `Snapshot.mesh_eq_plainMesh`: the two ways give the same lists in the same order, and where the
  plain way meets a fault the other one meets the same.

The count of a chunk is right if the chunk was made by the operations on chunks.  It is all that the
first shortcut goes by: a chunk whose count had drifted to zero would lose its mesh.
-/
import Blockworld.Proofs.Policies

namespace Blockworld

/-! ## 1. Gathering in stages -/

section Gather

variable {α β γ : Type} {f : α → Except Fault (List β)}

theorem gather_append (l l' : List α) :
    gather f (l ++ l') = do
      let here ← gather f l
      let there ← gather f l'
      return here ++ there := by
  induction l with
  | nil =>
    change gather f l' = _
    cases gather f l' <;> rfl
  | cons a rest ih =>
    rw [List.cons_append, gather, gather, ih]
    cases f a with
    | error fault => rfl
    | ok here =>
      cases gather f rest with
      | error fault => rfl
      | ok there =>
        cases gather f l' with
        | error fault => rfl
        | ok last => exact congrArg Except.ok (List.append_assoc here there last).symm

/-- **Gathering list by list is gathering all at once**, and the first fault is the same. -/
theorem gather_flatMap (g : γ → List α) (l : List γ) :
    gather f (l.flatMap g) = gather (fun c => gather f (g c)) l := by
  induction l with
  | nil => rfl
  | cons c rest ih => rw [List.flatMap_cons, gather_append, ih, gather]

theorem gather_map (g : γ → α) (l : List γ) :
    gather f (l.map g) = gather (fun c => f (g c)) l := by
  induction l with
  | nil => rfl
  | cons c rest ih => rw [List.map_cons, gather, gather, ih]

end Gather

/-! ## 2. Slices without faces -/

namespace Slice

variable {s : Slice}

/-- Scanning places without faces yields no patch. -/
theorem mergeFrom_of_isEmpty (h : s.isEmpty = true) (places : List (Fin 16 × Fin 16))
    (mask : Mask) : s.mergeFrom places mask = .ok [] := by
  induction places with
  | nil => rfl
  | cons place rest ih =>
    obtain ⟨i, j⟩ := place
    rw [mergeFrom, isEmpty_get h, Bool.true_or, if_pos rfl, ih]

/-- **A slice without faces has no quads.** -/
theorem quads_of_isEmpty (h : s.isEmpty = true) : s.quads = .ok [] := by
  unfold quads merge
  rw [mergeFrom_of_isEmpty h]
  rfl

end Slice

/-! ## 3. The plain way -/

namespace Snapshot

/-- The quads of one layer toward one side, which is merged whether it has faces or not. -/
def layerQuads (s : Snapshot) (policy : Boundary) (side : Side) (layer : Fin 16) :
    Except Fault (List Quad) := do
  let slice ← Slice.ofSnapshot s policy side layer
  slice.quads

/-- All layers: the sides in their visiting order, and for each of them the numbers from 0 to 15. -/
def layers : List (Side × Fin 16) :=
  Side.all.flatMap fun side => (List.finRange 16).map fun layer => (side, layer)

/-- The quads of all layers, one layer after the other. -/
def plainQuads (s : Snapshot) (policy : Boundary) : Except Fault (List Quad) :=
  gather (fun place => s.layerQuads policy place.1 place.2) layers

/-- The mesh made of the quads of all layers, separated by drawing pass. -/
def plainMesh (s : Snapshot) (policy : Boundary) : Except Fault Mesh := do
  let quads ← s.plainQuads policy
  let (translucent, rest) := quads.partition (·.isTranslucent)
  return { coords := s.coords, opaqueQuads := rest, translucentQuads := translucent }

variable {s : Snapshot} {policy : Boundary}

/-- A slice without faces may be merged or not. -/
theorem sliceQuads_eq_layerQuads (s : Snapshot) (policy : Boundary) (side : Side)
    (layer : Fin 16) : s.sliceQuads policy side layer = s.layerQuads policy side layer := by
  unfold sliceQuads layerQuads
  cases Slice.ofSnapshot s policy side layer with
  | error fault => rfl
  | ok slice =>
    change (if slice.isEmpty = true then Except.ok [] else slice.quads) = slice.quads
    cases hempty : slice.isEmpty with
    | true => exact (Slice.quads_of_isEmpty hempty).symm
    | false => rfl

/-- **Leaving out the slices without faces changes nothing**, whatever the snapshot holds. -/
theorem quads_eq_plainQuads (s : Snapshot) (policy : Boundary) :
    s.quads policy = s.plainQuads policy := by
  unfold quads plainQuads layers
  rw [gather_flatMap]
  simp only [gather_map, ← sliceQuads_eq_layerQuads]

/-- Air has no face, whatever it looks at. -/
theorem ofSnapshot_of_isAir (h : ∀ cell, (s.chunk.get cell).isAir = true) (side : Side)
    (layer : Fin 16) : Slice.ofSnapshot s policy side layer = .ok (.empty side layer) :=
  ofSnapshot_eq_empty fun _ _ => if_pos (h _)

/-- **A chunk that rightly counts no solid cell has no quads**, and no code across its borders is
decoded. -/
theorem plainQuads_of_isEmpty (hs : s.chunk.Coherent) (h : s.chunk.isEmpty = true) :
    s.plainQuads policy = .ok [] := by
  have hlayer : ∀ side layer, s.layerQuads policy side layer = .ok [] := by
    intro side layer
    unfold layerQuads
    simp only [ofSnapshot_of_isAir (hs.isAir_of_isEmpty h), bind, Except.bind]
    exact Slice.quads_of_isEmpty (Slice.isEmpty_empty side layer)
  have hall := gather_eq_ok (g := fun _ => []) (l := layers) fun place _ => hlayer place.1 place.2
  rwa [List.flatMap_eq_nil_iff.mpr fun _ _ => rfl] at hall

/-- The two ways to separate quads by drawing pass. -/
theorem plainMesh_eq_map (s : Snapshot) (policy : Boundary) :
    s.plainMesh policy = (s.plainQuads policy).map (Mesh.ofQuads s.coords) := by
  unfold plainMesh Mesh.ofQuads
  simp only [List.partition_eq_filter_filter]
  cases s.plainQuads policy <;> rfl

/-- **The shortcuts of meshing change nothing.**  For a chunk made by the operations on chunks,
whatever lies beyond its borders, meshing gives the two lists that the plain way gives, in the same
order, or fails with the same fault. -/
theorem mesh_eq_plainMesh (s : Snapshot) (policy : Boundary) (hbuilt : s.chunk.Built) :
    s.mesh policy = s.plainMesh policy := by
  rw [plainMesh_eq_map]
  unfold mesh
  cases hempty : s.chunk.isEmpty with
  | true =>
    rw [plainQuads_of_isEmpty hbuilt.coherent hempty]
    rfl
  | false =>
    rw [quads_eq_plainQuads]
    rfl

/-- Air below corrupt codes: the plain way looks at every cell and finds nothing.  Stone below them:
both ways fail. -/
theorem blighted_mesh_eq_plainMesh :
    (blighted .air).chunk.Built ∧ (blighted (.ofMaterial .stone)).chunk.Built ∧
      (blighted .air).plainMesh .hidden = .ok (.ofQuads .zero []) ∧
      (blighted (.ofMaterial .stone)).mesh .hidden =
        (blighted (.ofMaterial .stone)).plainMesh .hidden := by
  have hair : (blighted .air).chunk.Built := .filled _ _
  have hstone : (blighted (.ofMaterial .stone)).chunk.Built := .filled _ _
  exact ⟨hair, hstone, (mesh_eq_plainMesh _ .hidden hair).symm,
    mesh_eq_plainMesh _ .hidden hstone⟩

end Snapshot

end Blockworld
