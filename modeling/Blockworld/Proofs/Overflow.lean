/-
# Computations that fault only by overflow

Coordinates are words, and whatever computes new ones can overflow.  For the computations of the
main loop this is the only way to fault: `OverflowOnly x` says so of one computation, and the lemmas
follow the ways in which computations are put together.  The position of a neighbour and the
positions around a viewer are of this kind.

A position in range is found by an aligned step from the viewer, so that the check of its alignment
cannot fail; this is where the viewer has to be aligned.
-/
import Blockworld.Proofs.Adjacency

namespace Blockworld

/-- The computation faults, if it does, because a word is too small. -/
def OverflowOnly {α : Type} (x : Except Fault α) : Prop :=
  ∀ f, x = .error f → ∃ operation, f = .overflow operation

namespace OverflowOnly

variable {α β : Type} {x : Except Fault α}

theorem ok (a : α) : OverflowOnly (.ok a) := nofun

theorem overflow (operation : Arithmetic) :
    OverflowOnly (.error (.overflow operation) : Except Fault α) := by
  rintro f ⟨⟩
  exact ⟨operation, rfl⟩

/-- A sequence faults where one of its parts does. -/
theorem bind {f : α → Except Fault β} (hx : OverflowOnly x)
    (hf : ∀ a, x = .ok a → OverflowOnly (f a)) : OverflowOnly (x >>= f) := by
  cases x with
  | error fault =>
    obtain ⟨operation, rfl⟩ := hx fault rfl
    exact overflow operation
  | ok a => exact hf a rfl

theorem fit32 (operation : Arithmetic) (n : Int) : OverflowOnly (Blockworld.fit32 operation n) := by
  intro f h
  exact ⟨operation, (fit32_eq_error_iff.mp h).2⟩

/-! ## 1. Positions -/

theorem neighbor (c : ChunkPos) (s : Side) : OverflowOnly (c.neighbor s) := by
  refine bind (fit32 _ _) fun _ _ => bind (fit32 _ _) fun _ _ => bind (fit32 _ _) fun _ _ =>
    bind (fit32 _ _) fun _ _ => ok _

theorem neighbors (c : ChunkPos) : OverflowOnly c.neighbors := by
  refine bind (neighbor c _) fun _ _ => bind (neighbor c _) fun _ _ => bind (neighbor c _)
    fun _ _ => bind (neighbor c _) fun _ _ => bind (neighbor c _) fun _ _ => bind (neighbor c _)
    fun _ _ => ok _

theorem origin (c : ChunkPos) : OverflowOnly c.origin := by
  refine bind (fit32 _ _) fun _ _ => bind (fit32 _ _) fun _ _ => ok _

theorem loadedBeside (w : World) (c : ChunkPos) : OverflowOnly (w.loadedBeside c) := by
  refine bind (neighbors c) fun _ _ => ok _

theorem snapshot? (w : World) (c : ChunkPos) : OverflowOnly (w.snapshot? c) := by
  unfold World.snapshot?
  split
  · exact ok _
  · exact bind (neighbors c) fun _ _ => ok _

/-! ## 2. Positions in range -/

/-- An aligned step from an aligned position is aligned. -/
theorem candidate (w : World) {center : ChunkPos} (hcenter : center.Aligned) (dx dy dz : Int32) :
    OverflowOnly (w.candidate center dx dy dz) := by
  refine bind (fit32 _ _) fun rise hrise => bind (fit32 _ _) fun y hy => bind (fit32 _ _) fun x _ =>
    bind (fit32 _ _) fun z _ => bind ?_ fun _ _ => ok _
  have hrise := fit32_eq_ok_iff.mp hrise
  have hy := fit32_eq_ok_iff.mp hy
  have hsixteen : (16 : Int32).toInt = 16 := rfl
  unfold ChunkPos.Aligned at hcenter
  unfold ChunkPos.aligned?
  rw [if_pos]
  · exact ok _
  · show y.toInt % 16 = 0
    rw [hy, hrise, hsixteen]
    omega

theorem sweep {f : Int32 → Except Fault (List α)} (h : ∀ a, OverflowOnly (f a)) (n : Nat)
    (start : Int) : OverflowOnly (World.sweep f n start) := by
  induction n generalizing start with
  | zero => exact ok _
  | succ n ih => exact bind (h _) fun _ _ => bind (ih _) fun _ _ => ok _

theorem surroundings (w : World) {center : ChunkPos} (hcenter : center.Aligned) (radius : Int32) :
    OverflowOnly (w.surroundings center radius) := by
  refine bind (fit32 _ _) fun _ _ => bind ?_ fun _ _ => ok _
  exact sweep (fun dz => sweep (fun dy => sweep (fun dx => candidate w hcenter dx dy dz) _ _) _ _)
    _ _

end OverflowOnly

end Blockworld
