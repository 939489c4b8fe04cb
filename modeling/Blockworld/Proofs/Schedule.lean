/-
# The representation of the work queue

A work queue keeps its positions twice: in the express lane or the heap, which decide the order,
and as keys of the payloads.  `WorkQueue.Sound` says how the two fit together:

* no position is in a lane twice or in both lanes, and the lanes hold exactly the queued positions;
* the heap is in order, its distances are distances to the present viewer, and no two of its tickets
  are equal (`Heap.Timely`).

Every operation preserves it.  So taking work out of a sound queue never meets a position without a
payload, and it finds nothing only if nothing is queued (`WorkQueue.Sound.dequeue_cases`).
-/
import Mathlib.Data.List.Nodup
import Std.Data.TreeMap.Lemmas
import Blockworld.Queue

namespace Blockworld

/-! ## 1. The heap -/

/-- The heap is in order, it holds the distances to the viewer, and its tickets are distinct and
were issued. -/
structure Heap.Timely (heap : Heap Waiting) (viewer : ChunkPos) (issued : Nat) : Prop where
  ordered : heap.Ordered Waiting.le
  priority : ∀ w ∈ heap.toList, w.priority = w.coords.squaredDistance viewer
  ticket_lt : ∀ w ∈ heap.toList, w.ticket < issued
  tickets : (heap.toList.map Waiting.ticket).Nodup

namespace Heap.Timely

variable {heap heap' : Heap Waiting} {viewer : ChunkPos} {issued : Nat}

theorem leaf (viewer : ChunkPos) : (Heap.leaf : Heap Waiting).Timely viewer 0 where
  ordered := trivial
  priority := nofun
  ticket_lt := nofun
  tickets := .nil

/-- A heap in order that has lost some of the elements is timely as well. -/
theorem of_perm (h : heap.Timely viewer issued) (hordered : heap'.Ordered Waiting.le)
    {gone : List Waiting} (hperm : heap.toList.Perm (gone ++ heap'.toList)) :
    heap'.Timely viewer issued where
  ordered := hordered
  priority w hw := h.priority w (hperm.mem_iff.mpr (List.mem_append_right _ hw))
  ticket_lt w hw := h.ticket_lt w (hperm.mem_iff.mpr (List.mem_append_right _ hw))
  tickets := by
    have hnodup := ((hperm.map Waiting.ticket).nodup_iff).mp h.tickets
    rw [List.map_append] at hnodup
    exact hnodup.of_append_right

/-- The next ticket is new. -/
theorem push (h : heap.Timely viewer issued) (c : ChunkPos) :
    (heap.push Waiting.le ⟨c, c.squaredDistance viewer, issued⟩).Timely viewer (issued + 1) := by
  have hperm := Heap.toList_push Waiting.le ⟨c, c.squaredDistance viewer, issued⟩ heap
  refine ⟨Heap.ordered_push Waiting.le_trans Waiting.le_total _ h.ordered, ?_, ?_, ?_⟩
  · intro w hw
    rcases List.mem_cons.mp (hperm.mem_iff.mp hw) with rfl | hw
    · dsimp only
    · exact h.priority w hw
  · intro w hw
    rcases List.mem_cons.mp (hperm.mem_iff.mp hw) with rfl | hw
    · exact Nat.lt_succ_self issued
    · exact Nat.lt_succ_of_lt (h.ticket_lt w hw)
  · rw [(hperm.map Waiting.ticket).nodup_iff, List.map_cons, List.nodup_cons]
    refine ⟨fun hmem => ?_, h.tickets⟩
    obtain ⟨w, hw, hticket⟩ := List.mem_map.mp hmem
    have hlt := h.ticket_lt w hw
    rw [hticket] at hlt
    exact Nat.lt_irrefl issued hlt

/-- Distances to another viewer, measured anew, change nothing else. -/
theorem retarget (h : heap.Timely viewer issued) (next : ChunkPos) :
    (Heap.ofList Waiting.le (heap.toList.map fun w =>
      { w with priority := w.coords.squaredDistance next })).Timely next issued := by
  have hperm := Heap.toList_ofList Waiting.le (heap.toList.map fun w =>
    { w with priority := w.coords.squaredDistance next })
  refine ⟨Heap.ordered_ofList Waiting.le_trans Waiting.le_total _, ?_, ?_, ?_⟩
  · intro w hw
    obtain ⟨v, -, rfl⟩ := List.mem_map.mp (hperm.mem_iff.mp hw)
    dsimp only
  · intro w hw
    obtain ⟨v, hv, rfl⟩ := List.mem_map.mp (hperm.mem_iff.mp hw)
    exact h.ticket_lt v hv
  · rw [(hperm.map Waiting.ticket).nodup_iff, List.map_map]
    exact h.tickets

end Heap.Timely

/-! ## 2. The queue -/

namespace WorkQueue

variable {α : Type} {q : WorkQueue α} {c : ChunkPos}

/-- The queued positions: the express lane, then the heap in no particular order. -/
def places (q : WorkQueue α) : List ChunkPos := q.express ++ q.heap.toList.map Waiting.coords

/-- The lanes hold exactly the positions that have a payload, each of them once. -/
structure Sound (q : WorkQueue α) : Prop where
  nodup : q.places.Nodup
  mem_places : ∀ c, c ∈ q.places ↔ q.contains c = true
  timely : q.heap.Timely q.viewer q.issued

theorem sound_empty (viewer : ChunkPos) (policy : OnDuplicate) :
    (empty viewer policy : WorkQueue α).Sound where
  nodup := .nil
  mem_places c := by simp [places, empty, contains]
  timely := .leaf viewer

@[simp] theorem contains_insert_pending (q : WorkQueue α) (c c' : ChunkPos) (a : α) :
    ({ q with pending := q.pending.insert c a } : WorkQueue α).contains c' =
      (decide (c = c') || q.contains c') := by
  simp [contains, Std.TreeMap.contains_insert, beq_eq_decide]

/-- Another payload for a queued position changes no lane. -/
theorem Sound.replace (hq : q.Sound) (hc : q.contains c = true) (a : α) :
    ({ q with pending := q.pending.insert c a } : WorkQueue α).Sound where
  nodup := hq.nodup
  mem_places c' := by
    rw [contains_insert_pending, Bool.or_eq_true, decide_eq_true_eq, or_iff_right_of_imp]
    · exact hq.mem_places c'
    · rintro rfl
      exact hc
  timely := hq.timely

/-- **Queueing by distance keeps a queue sound.** -/
theorem Sound.enqueue (hq : q.Sound) (c : ChunkPos) (a : α) : (q.enqueue c a).2.Sound := by
  unfold WorkQueue.enqueue
  split
  · next hc =>
    split
    · exact hq
    · exact hq.replace hc a
  · next hc =>
    have hperm : (q.express ++ (q.heap.push Waiting.le
        ⟨c, c.squaredDistance q.viewer, q.issued⟩).toList.map Waiting.coords).Perm
          (c :: q.places) :=
      ((((Heap.toList_push _ _ _).map _).append_left _)).trans List.perm_middle
    refine ⟨?_, fun c' => ?_, hq.timely.push c⟩
    · refine hperm.nodup_iff.mpr (List.nodup_cons.mpr ⟨?_, hq.nodup⟩)
      rw [hq.mem_places]
      exact hc
    · refine hperm.mem_iff.trans ?_
      rw [List.mem_cons, hq.mem_places, eq_comm]
      simp [contains, Std.TreeMap.contains_insert]

/-- **Promoting keeps a queue sound.**  Whether or not the position was queued, the heap then holds
the other positions that it held. -/
theorem Sound.promote (hq : q.Sound) (c : ChunkPos) (a : α) : (q.promote c a).Sound := by
  unfold WorkQueue.promote
  split
  · next hc =>
    exact hq.replace ((hq.mem_places c).mp (List.mem_append_left _ hc)) a
  · next hexpress =>
    have hordered : (if q.contains c then
        Heap.ofList Waiting.le (q.heap.toList.filter (·.coords != c)) else q.heap).Ordered
          Waiting.le := by
      split
      · exact Heap.ordered_ofList Waiting.le_trans Waiting.le_total _
      · exact hq.timely.ordered
    have hkept : (if q.contains c then
        Heap.ofList Waiting.le (q.heap.toList.filter (·.coords != c)) else q.heap).toList.Perm
          (q.heap.toList.filter (·.coords != c)) := by
      split
      · exact Heap.toList_ofList _ _
      · next hc =>
        rw [List.filter_eq_self.mpr]
        intro w hw
        refine bne_iff_ne.mpr fun heq => hc ?_
        rw [← hq.mem_places, ← heq]
        exact List.mem_append_right _ (List.mem_map_of_mem hw)
    have hother : q.express.filter (· != c) = q.express := by
      refine List.filter_eq_self.mpr fun c' hc' => bne_iff_ne.mpr ?_
      rintro rfl
      exact hexpress hc'
    have hperm : ((q.express ++ [c]) ++ (if q.contains c then
        Heap.ofList Waiting.le (q.heap.toList.filter (·.coords != c)) else q.heap).toList.map
          Waiting.coords).Perm (c :: q.places.filter (· != c)) := by
      refine ((hkept.map Waiting.coords).append_left _).trans ?_
      rw [places, List.filter_append, hother, List.filter_map, List.append_assoc]
      exact List.perm_middle
    have hsplit : q.heap.toList.Perm (q.heap.toList.filter (fun w => !(w.coords != c)) ++
        (if q.contains c then
          Heap.ofList Waiting.le (q.heap.toList.filter (·.coords != c)) else q.heap).toList) :=
      ((List.perm_append_comm.trans (List.filter_append_perm _ _)).symm.trans
        (hkept.symm.append_left _))
    refine ⟨?_, fun c' => ?_, hq.timely.of_perm hordered hsplit⟩
    · refine hperm.nodup_iff.mpr (List.nodup_cons.mpr ⟨?_, hq.nodup.filter _⟩)
      simp
    · refine hperm.mem_iff.trans ?_
      rw [List.mem_cons, List.mem_filter, hq.mem_places, bne_iff_ne]
      by_cases hc' : c' = c
      · subst hc'
        simp [contains]
      · have hne : c ≠ c' := Ne.symm hc'
        simp [contains, Std.TreeMap.contains_insert, hc', hne]

/-- **Measuring distances anew keeps a queue sound.** -/
theorem Sound.retarget (hq : q.Sound) (viewer : ChunkPos) : (q.retarget viewer).Sound := by
  have hcoords : ((q.retarget viewer).heap.toList.map Waiting.coords).Perm
      (q.heap.toList.map Waiting.coords) := by
    refine ((Heap.toList_ofList _ _).map _).trans ?_
    rw [List.map_map]
    exact .refl _
  have hperm : (q.retarget viewer).places.Perm q.places := hcoords.append_left q.express
  exact ⟨hperm.nodup_iff.mpr hq.nodup, fun c => hperm.mem_iff.trans (hq.mem_places c),
    hq.timely.retarget viewer⟩

/-! ## 3. Taking work out -/

/-- The next position is taken out of its lane, and nothing else changes. -/
theorem Sound.next?_cases (hq : q.Sound) :
    (q.next? = none ∧ q.places = []) ∨
      ∃ c express heap, q.next? = some (c, { q with express := express, heap := heap }) ∧
        q.places.Perm (c :: (express ++ heap.toList.map Waiting.coords)) ∧
        heap.Timely q.viewer q.issued := by
  unfold next? places
  cases hexpress : q.express with
  | cons c rest => exact .inr ⟨c, rest, q.heap, rfl, .refl _, hq.timely⟩
  | nil =>
    cases hpop : q.heap.pop? Waiting.le with
    | none =>
      left
      rw [Heap.pop?_eq_none_iff.mp hpop]
      exact ⟨rfl, rfl⟩
    | some popped =>
      obtain ⟨w, heap⟩ := popped
      right
      have hperm : q.heap.toList.Perm ([w] ++ heap.toList) := Heap.toList_pop hpop
      have hordered := Heap.ordered_pop Waiting.le_trans Waiting.le_total hq.timely.ordered hpop
      refine ⟨w.coords, [], heap, ?_, hperm.map _, hq.timely.of_perm hordered hperm⟩
      simp only [Option.map_some]

/-- **A sound queue gives out work with its payload**, and nothing exactly if nothing is queued.  A
position without a payload is never met. -/
theorem Sound.dequeue_cases (hq : q.Sound) :
    (q.dequeue = .ok none ∧ ∀ c, q.contains c = false) ∨
      ∃ c a rest, q.dequeue = .ok (some ((c, a), rest)) ∧ q.pending[c]? = some a ∧
        rest.pending = q.pending.erase c ∧ rest.viewer = q.viewer ∧ rest.policy = q.policy ∧
        rest.Sound := by
  unfold dequeue
  rcases hq.next?_cases with ⟨hnext, hplaces⟩ | ⟨c, express, heap, hnext, hperm, htimely⟩
  · left
    rw [hnext]
    refine ⟨rfl, fun c => ?_⟩
    rw [← Bool.not_eq_true, ← hq.mem_places, hplaces]
    exact List.not_mem_nil
  · right
    have hc : q.contains c = true :=
      (hq.mem_places c).mp (hperm.mem_iff.mpr List.mem_cons_self)
    obtain ⟨a, ha⟩ : ∃ a, q.pending[c]? = some a := by
      rw [← Option.isSome_iff_exists]
      simpa [contains] using hc
    obtain ⟨hnot, hnodup⟩ := List.nodup_cons.mp (hperm.nodup_iff.mp hq.nodup)
    rw [hnext]
    simp only [ha]
    refine ⟨c, a, _, rfl, ha, rfl, rfl, rfl, hnodup, fun c' => ?_, htimely⟩
    by_cases hc' : c' = c
    · subst hc'
      simpa [places, contains] using hnot
    · have hne : c ≠ c' := Ne.symm hc'
      have hmem := (hperm.mem_iff (a := c')).symm.trans (hq.mem_places c')
      rw [List.mem_cons, or_iff_right hc'] at hmem
      refine hmem.trans ?_
      simp [contains, hne]

end WorkQueue

end Blockworld
