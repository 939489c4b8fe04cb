/-
# The history of a work queue

What a work queue holds is decided by what has happened to it: which work was submitted, where the
viewer moved, and what was served.  A `Past` is the list of these notes, the latest first, and
`WorkQueue.History` says that a queue has come about in this way.

The questions that decide what is served next are asked of the past alone:

* `Past.queued`: whether a position has been submitted and not been served since;
* `Past.since`: when it was queued, counted in notes;
* `Past.promoted?`: when it was first submitted as urgent since then, if ever;
* `Past.payload?`: the payload it is queued with;
* `Past.viewer`: where the viewer is.

The queue agrees with its past on all of them (`History.contains_eq`, `History.pending_eq`,
`History.viewer_eq`; the order of the lanes is the subject of `Blockworld.Proofs.ServingOrder`).
Nothing is lost on the way and nothing served twice: every submission is served, still queued, or
found its position queued already (`History.balance`).
-/
import Blockworld.Service
import Blockworld.Proofs.Schedule

namespace Blockworld

/-! ## 1. Notes -/

/-- Something that has happened to a work queue. -/
inductive Note (α : Type) where
  | submitted (s : Submission α)
  | retargeted (viewer : ChunkPos)
  | served (c : ChunkPos) (a : α)

/-- What has happened to a work queue, the latest first. -/
abbrev Past (α : Type) := List (Note α)

namespace Past

variable {α : Type}

/-- Where the viewer is, who started at a given position. -/
def viewer (start : ChunkPos) : Past α → ChunkPos
  | [] => start
  | .submitted _ :: past => viewer start past
  | .retargeted viewer :: _ => viewer
  | .served _ _ :: past => viewer start past

/-- Whether a position has been submitted and not been served since. -/
def queued : Past α → ChunkPos → Bool
  | [], _ => false
  | .submitted s :: past, c => decide (s.coords = c) || queued past c
  | .retargeted _ :: past, c => queued past c
  | .served c' _ :: past, c => decide (c' ≠ c) && queued past c

/-- The number of notes there were when a position was queued. -/
def since : Past α → ChunkPos → Nat
  | [], _ => 0
  | .submitted s :: past, c =>
    if s.coords = c ∧ queued past c = false then past.length else since past c
  | .retargeted _ :: past, c => since past c
  | .served _ _ :: past, c => since past c

/-- The number of notes there were when a position was first submitted as urgent, counting from the
time when it was queued; `none` if that has not happened. -/
def promoted? : Past α → ChunkPos → Option Nat
  | [], _ => none
  | .submitted s :: past, c =>
    if s.coords = c ∧ s.urgent = true then (promoted? past c).or (some past.length)
    else promoted? past c
  | .retargeted _ :: past, c => promoted? past c
  | .served c' _ :: past, c => if c' = c then none else promoted? past c

/-- The payload that a position is queued with.  A submission that finds it queued replaces the
payload if it is urgent, or else if the policy says so. -/
def payload? (policy : OnDuplicate) : Past α → ChunkPos → Option α
  | [], _ => none
  | .submitted s :: past, c =>
    if s.coords = c then
      if s.urgent = true ∨ policy = .replace then some s.request
      else (payload? policy past c).or (some s.request)
    else payload? policy past c
  | .retargeted _ :: past, c => payload? policy past c
  | .served c' _ :: past, c => if c' = c then none else payload? policy past c

/-- The submissions, the latest first. -/
def submitted (past : Past α) : List (Submission α) :=
  past.filterMap fun
    | .submitted s => some s
    | _ => none

/-- The work that was served, the latest first. -/
def served (past : Past α) : List (ChunkPos × α) :=
  past.filterMap fun
    | .served c a => some (c, a)
    | _ => none

/-- The number of submissions, urgent ones or others, that found their position queued. -/
def repeats (urgent : Bool) : Past α → Nat
  | [] => 0
  | .submitted s :: past =>
    repeats urgent past + if s.urgent = urgent ∧ queued past s.coords = true then 1 else 0
  | .retargeted _ :: past => repeats urgent past
  | .served _ _ :: past => repeats urgent past

/-- Work that is queued has a payload. -/
theorem payload?_isSome (policy : OnDuplicate) (past : Past α) (c : ChunkPos) :
    (payload? policy past c).isSome = queued past c := by
  induction past with
  | nil => rfl
  | cons note past ih =>
    cases note with
    | submitted s =>
      unfold payload? queued
      by_cases hc : s.coords = c
      · simp only [hc, if_true, decide_true, Bool.true_or]
        split <;> simp
      · simp [hc, ih]
    | retargeted _ => exact ih
    | served c' _ =>
      unfold payload? queued
      by_cases hc : c' = c
      · simp [hc]
      · simp [hc, ih]

end Past

namespace WorkQueue

variable {α : Type} {q q' : WorkQueue α} {c : ChunkPos} {a : α}

/-! ## 2. Submissions -/

/-- Queues a submission: in the express lane if it is urgent, else by distance. -/
def submit (q : WorkQueue α) (s : Submission α) : WorkQueue α :=
  if s.urgent then q.promote s.coords s.request else (q.enqueue s.coords s.request).2

theorem Sound.submit (hq : q.Sound) (s : Submission α) : (q.submit s).Sound := by
  unfold WorkQueue.submit
  split
  · exact hq.promote s.coords s.request
  · exact hq.enqueue s.coords s.request

@[simp] theorem viewer_submit (q : WorkQueue α) (s : Submission α) :
    (q.submit s).viewer = q.viewer := by
  unfold submit promote enqueue
  split
  · split <;> rfl
  · split
    · split <;> rfl
    · rfl

@[simp] theorem policy_submit (q : WorkQueue α) (s : Submission α) :
    (q.submit s).policy = q.policy := by
  unfold submit promote enqueue
  split
  · split <;> rfl
  · split
    · split <;> rfl
    · rfl

/-- **A submission files its payload**, unless an older one has to be kept. -/
theorem pending_submit (q : WorkQueue α) (s : Submission α) :
    (q.submit s).pending =
      if q.contains s.coords = true ∧ s.urgent = false ∧ q.policy = .keep then q.pending
      else q.pending.insert s.coords s.request := by
  unfold submit promote enqueue
  cases s.urgent with
  | true =>
    simp only [if_true]
    split <;> simp
  | false =>
    cases q.contains s.coords <;> cases q.policy <;> simp

theorem contains_submit (q : WorkQueue α) (s : Submission α) (c : ChunkPos) :
    (q.submit s).contains c = (decide (s.coords = c) || q.contains c) := by
  unfold contains
  rw [pending_submit]
  split
  · next hkept =>
    by_cases hc : s.coords = c
    · subst hc
      simpa [contains] using hkept.1
    · simp [hc]
  · simp [Std.TreeMap.contains_insert, beq_eq_decide]

/-- One more position is queued, unless it was before. -/
theorem size_submit (q : WorkQueue α) (s : Submission α) :
    (q.submit s).size = q.size + if q.contains s.coords = true then 0 else 1 := by
  unfold size
  rw [pending_submit]
  split
  · next hkept => rw [if_pos hkept.1, Nat.add_zero]
  · rw [Std.TreeMap.size_insert]
    unfold contains
    split <;> rfl

/-- An urgent submission goes to the end of the express lane, unless its position is there. -/
theorem express_submit (q : WorkQueue α) (s : Submission α) :
    (q.submit s).express =
      if s.urgent = true ∧ s.coords ∉ q.express then q.express ++ [s.coords] else q.express := by
  unfold submit promote enqueue
  cases s.urgent with
  | true =>
    by_cases hc : s.coords ∈ q.express <;> simp [hc]
  | false =>
    cases q.contains s.coords <;> cases q.policy <;> simp

/-- **What waits in the heap after a submission**: an urgent one takes its position out, and any
other adds its position with the next ticket if it was not queued. -/
theorem Sound.mem_heap_submit (hq : q.Sound) (s : Submission α) (w : Waiting) :
    w ∈ (q.submit s).heap.toList ↔
      if s.urgent = true then w ∈ q.heap.toList ∧ w.coords ≠ s.coords
      else w ∈ q.heap.toList ∨ q.contains s.coords = false ∧
        w = ⟨s.coords, s.coords.squaredDistance q.viewer, q.issued⟩ := by
  unfold WorkQueue.submit
  cases s.urgent with
  | true =>
    simp only [if_true]
    unfold WorkQueue.promote
    split
    · next hexpress =>
      -- a position of the express lane does not wait in the heap
      refine ⟨fun hw => ⟨hw, ?_⟩, And.left⟩
      intro heq
      refine (List.nodup_append.mp hq.nodup).2.2 s.coords hexpress w.coords ?_ heq.symm
      exact List.mem_map_of_mem hw
    · dsimp only
      split
      · rw [(Heap.toList_ofList _ _).mem_iff, List.mem_filter, bne_iff_ne]
      · next hc =>
        refine ⟨fun hw => ⟨hw, ?_⟩, And.left⟩
        intro heq
        refine hc ((hq.mem_places s.coords).mp (List.mem_append_right _ ?_))
        rw [← heq]
        exact List.mem_map_of_mem hw
  | false =>
    simp only [Bool.false_eq_true, if_false]
    unfold WorkQueue.enqueue
    cases q.contains s.coords with
    | true => cases q.policy <;> simp
    | false =>
      simp only [Bool.false_eq_true, if_false, true_and]
      rw [(Heap.toList_push _ _ _).mem_iff, List.mem_cons, or_comm]

/-! ## 3. Servings -/

/-- **What is served is the head of the express lane**, or else the top of the heap.  Nothing else
changes. -/
theorem dequeue_spec (h : q.dequeue = .ok (some ((c, a), q'))) :
    q.pending[c]? = some a ∧ q'.pending = q.pending.erase c ∧ q'.viewer = q.viewer ∧
      q'.policy = q.policy ∧
      (q.express = c :: q'.express ∧ q'.heap = q.heap ∨
        q.express = [] ∧ q'.express = [] ∧
          ∃ w, w.coords = c ∧ q.heap.pop? Waiting.le = some (w, q'.heap)) := by
  unfold dequeue at h
  split at h
  · cases h
  · next c' next hnext =>
    split at h
    · cases h
    · next a' ha =>
      cases h
      unfold next? at hnext
      split at hnext
      · next rest' hexpress =>
        cases hnext
        exact ⟨ha, rfl, rfl, rfl, .inl ⟨hexpress, rfl⟩⟩
      · next hexpress =>
        obtain ⟨⟨w, heap⟩, hpop, hw⟩ := Option.map_eq_some_iff.mp hnext
        cases hw
        exact ⟨ha, rfl, rfl, rfl, .inr ⟨hexpress, hexpress, w, rfl, hpop⟩⟩

theorem contains_of_dequeue (h : q.dequeue = .ok (some ((c, a), q'))) :
    q.contains c = true := by
  obtain ⟨ha, -⟩ := dequeue_spec h
  rw [contains, Std.TreeMap.contains_eq_isSome_getElem?, ha]
  rfl

theorem contains_served (h : q.dequeue = .ok (some ((c, a), q'))) (c' : ChunkPos) :
    q'.contains c' = (decide (c ≠ c') && q.contains c') := by
  obtain ⟨-, hpending, -⟩ := dequeue_spec h
  rw [contains, hpending, Std.TreeMap.contains_erase]
  simp [contains, bne, beq_eq_decide]

/-- One position less is queued. -/
theorem size_served (h : q.dequeue = .ok (some ((c, a), q'))) : q'.size + 1 = q.size := by
  have hc : q.pending.contains c = true := contains_of_dequeue h
  obtain ⟨-, hpending, -⟩ := dequeue_spec h
  have hpos : q.pending.size ≠ 0 := by
    intro hzero
    have hempty : q.pending.isEmpty = true := by
      rw [Std.TreeMap.isEmpty_eq_size_eq_zero, hzero]
      rfl
    rw [Std.TreeMap.contains_of_isEmpty hempty] at hc
    cases hc
  unfold size
  rw [hpending, Std.TreeMap.size_erase, if_pos hc]
  omega

theorem Sound.served (hq : q.Sound) (h : q.dequeue = .ok (some ((c, a), q'))) : q'.Sound := by
  rcases hq.dequeue_cases with ⟨hnone, -⟩ | ⟨c', a', rest, hsome, -, -, -, -, hrest⟩
  · rw [hnone] at h
    cases h
  · rw [hsome] at h
    cases h
    exact hrest

theorem size_eq_zero_iff : q.size = 0 ↔ ∀ c, q.contains c = false := by
  unfold size contains
  rw [← Std.TreeMap.isEmpty_iff_forall_contains, Std.TreeMap.isEmpty_eq_size_eq_zero, beq_iff_eq]

/-- Nothing is served exactly when nothing is queued. -/
theorem Sound.dequeue_eq_none_iff (hq : q.Sound) :
    q.dequeue = .ok none ↔ ∀ c, q.contains c = false := by
  rcases hq.dequeue_cases with ⟨hnone, hempty⟩ | ⟨c, a, rest, hsome, -⟩
  · exact iff_of_true hnone hempty
  · refine iff_of_false (fun h => ?_) (fun h => ?_)
    · rw [hsome] at h
      cases h
    · have hc := contains_of_dequeue hsome
      rw [h c] at hc
      cases hc

/-! ## 4. Histories -/

/-- The queue has come about, from an empty one, by what the past tells. -/
inductive History (viewer : ChunkPos) (policy : OnDuplicate) : WorkQueue α → Past α → Prop
  | empty : History viewer policy (.empty viewer policy) []
  | submit {q : WorkQueue α} {past : Past α} (h : History viewer policy q past)
      (s : Submission α) : History viewer policy (q.submit s) (.submitted s :: past)
  | retarget {q : WorkQueue α} {past : Past α} (h : History viewer policy q past)
      (next : ChunkPos) : History viewer policy (q.retarget next) (.retargeted next :: past)
  | serve {q q' : WorkQueue α} {past : Past α} {c : ChunkPos} {a : α}
      (h : History viewer policy q past) (hserved : q.dequeue = .ok (some ((c, a), q'))) :
      History viewer policy q' (.served c a :: past)

namespace History

variable {viewer : ChunkPos} {policy : OnDuplicate} {past : Past α}

/-- **Whatever happens to a queue, it stays sound.** -/
theorem sound (h : History viewer policy q past) : q.Sound := by
  induction h with
  | empty => exact sound_empty viewer policy
  | submit _ s ih => exact ih.submit s
  | retarget _ next ih => exact ih.retarget next
  | serve _ hserved ih => exact ih.served hserved

theorem policy_eq (h : History viewer policy q past) : q.policy = policy := by
  induction h with
  | empty => rfl
  | submit _ s ih => rw [policy_submit, ih]
  | retarget _ next ih => exact ih
  | serve _ hserved ih => rw [(dequeue_spec hserved).2.2.2.1, ih]

/-- **The queue measures to the viewer of its past.** -/
theorem viewer_eq (h : History viewer policy q past) : q.viewer = past.viewer viewer := by
  induction h with
  | empty => rfl
  | submit _ s ih => rw [viewer_submit, ih, Past.viewer]
  | retarget _ next ih => rfl
  | serve _ hserved ih => rw [(dequeue_spec hserved).2.2.1, ih, Past.viewer]

/-- **The queued positions are those submitted and not served since.** -/
theorem contains_eq (h : History viewer policy q past) (c : ChunkPos) :
    q.contains c = past.queued c := by
  induction h with
  | empty => simp [WorkQueue.empty, contains, Past.queued]
  | submit _ s ih => rw [contains_submit, ih, Past.queued]
  | retarget _ next ih => exact ih
  | serve _ hserved ih => rw [contains_served hserved, ih, Past.queued]

/-- **The payloads are those of the past.** -/
theorem pending_eq (h : History viewer policy q past) (c : ChunkPos) :
    q.pending[c]? = past.payload? policy c := by
  induction h with
  | empty => simp [WorkQueue.empty, Past.payload?]
  | @submit q past h s ih =>
    rw [pending_submit, h.policy_eq, h.contains_eq, Past.payload?]
    by_cases hc : s.coords = c
    · subst hc
      rw [if_pos rfl]
      split
      · next hkept =>
        obtain ⟨hqueued, hplain, hpolicy⟩ := hkept
        rw [ih, if_neg (by simp [hplain, hpolicy])]
        rw [← Past.payload?_isSome policy] at hqueued
        obtain ⟨a, ha⟩ := Option.isSome_iff_exists.mp hqueued
        rw [ha, Option.some_or]
      · next hfiled =>
        rw [Std.TreeMap.getElem?_insert_self]
        split
        · rfl
        · next hnot =>
          have hnone : past.payload? policy s.coords = none := by
            rw [← Option.not_isSome_iff_eq_none, Past.payload?_isSome]
            intro hqueued
            obtain ⟨hplain, hpolicy⟩ := not_or.mp hnot
            refine hfiled ⟨hqueued, eq_false_of_ne_true hplain, ?_⟩
            cases policy with
            | keep => rfl
            | replace => exact absurd rfl hpolicy
          rw [hnone, Option.none_or]
    · rw [if_neg hc]
      split
      · exact ih
      · rw [Std.TreeMap.getElem?_insert, if_neg, ih]
        intro heq
        exact hc (Std.LawfulEqCmp.eq_of_compare heq)
  | retarget _ next ih => exact ih
  | serve _ hserved ih =>
    rw [(dequeue_spec hserved).2.1, Std.TreeMap.getElem?_erase, ih, Past.payload?]
    simp only [Std.LawfulEqCmp.compare_eq_iff_eq]

/-- **Nothing is lost and nothing is served twice**: every submission is served, or still queued, or
found its position queued. -/
theorem balance (h : History viewer policy q past) :
    past.submitted.length =
      past.served.length + q.size + past.repeats true + past.repeats false := by
  induction h with
  | empty => rfl
  | @submit q past h s ih =>
    have hsubmitted : Past.submitted (.submitted s :: past) = s :: past.submitted := rfl
    have hserved : Past.served (.submitted s :: past) = past.served := rfl
    rw [hsubmitted, hserved, List.length_cons, size_submit, h.contains_eq, ih, Past.repeats,
      Past.repeats]
    cases s.urgent <;> cases past.queued s.coords <;> simp <;> omega
  | retarget _ next ih => exact ih
  | @serve q q' past c a _ hdequeue ih =>
    have hserved : Past.served (.served c a :: past) = (c, a) :: past.served := rfl
    have hsize := size_served hdequeue
    rw [hserved, List.length_cons, Past.repeats, Past.repeats]
    show past.submitted.length = _
    omega

end History

end WorkQueue

end Blockworld
