/-
# The serving order of the work queue

What a work queue serves next is decided by its past: the position that was first promoted, if any
queued position has been promoted; else the one nearest to the viewer, and of those at equal
distance the one that was queued first.  `Past.first?` looks it up in the past, without heap, lanes
or tickets, and `Past.answers` is a queue that remembers nothing but its past.

The work queue gives the same answers to every sequence of commands (`WorkQueue.answers_eq_past`).
The express lane is in the order of promotions and tickets are issued in the order in which
positions are queued (`WorkQueue.History.Timed`), whatever duplicates, promotions and moves of the
viewer come in between.
-/
import Blockworld.Proofs.History

namespace Blockworld

/-! ## 1. The order that the past gives -/

namespace Past

variable {α : Type} {start c c' : ChunkPos} {past : Past α}

/-- Whether a position is served no later than another: promoted positions first, in the order of
their first promotions, then by distance, then in the order in which they were queued. -/
def precedes (start : ChunkPos) (past : Past α) (c c' : ChunkPos) : Bool :=
  match promoted? past c, promoted? past c' with
  | some t, some t' => decide (t ≤ t')
  | some _, none => true
  | none, some _ => false
  | none, none =>
    let near := c.squaredDistance (viewer start past)
    let near' := c'.squaredDistance (viewer start past)
    decide (near < near') || near == near' && decide (since past c ≤ since past c')

/-- The queued positions, each as often as it has been submitted. -/
def waiting (past : Past α) : List ChunkPos :=
  (past.filterMap fun
    | .submitted s => some s.coords
    | _ => none).filter (queued past)

/-- The queued position that precedes all others. -/
def first? (start : ChunkPos) (past : Past α) : Option ChunkPos :=
  (waiting past).find? fun c => (waiting past).all (precedes start past c)

theorem mem_waiting : c ∈ waiting past ↔ queued past c = true := by
  refine ⟨fun h => (List.mem_filter.mp h).2, fun h => List.mem_filter.mpr ⟨?_, h⟩⟩
  induction past with
  | nil => cases h
  | cons note past ih =>
    cases note with
    | submitted s =>
      rw [queued, Bool.or_eq_true, decide_eq_true_eq] at h
      rcases h with rfl | h
      · exact List.mem_cons_self
      · exact List.mem_cons_of_mem _ (ih h)
    | retargeted _ => exact ih h
    | served c' _ =>
      rw [queued, Bool.and_eq_true] at h
      exact ih h.2

/-- A position was queued at some time in the past. -/
theorem since_lt (h : queued past c = true) : since past c < past.length := by
  induction past with
  | nil => cases h
  | cons note past ih =>
    rw [List.length_cons]
    cases note with
    | submitted s =>
      unfold since
      split
      · omega
      · next hnot =>
        have hold : queued past c = true := by
          rw [queued, Bool.or_eq_true, decide_eq_true_eq] at h
          rcases h with rfl | h
          · simpa using hnot
          · exact h
        have := ih hold
        omega
    | retargeted _ =>
      have := ih h
      exact Nat.lt_succ_of_lt this
    | served c' _ =>
      rw [queued, Bool.and_eq_true] at h
      exact Nat.lt_succ_of_lt (ih h.2)

theorem promoted?_lt {t : Nat} (h : promoted? past c = some t) : t < past.length := by
  induction past with
  | nil => cases h
  | cons note past ih =>
    rw [List.length_cons]
    cases note with
    | submitted s =>
      unfold promoted? at h
      split at h
      · rcases Option.or_eq_some_iff.mp h with hold | ⟨-, hnew⟩
        · have := ih hold
          omega
        · cases hnew
          omega
      · have := ih h
        omega
    | retargeted _ => exact Nat.lt_succ_of_lt (ih h)
    | served c' _ =>
      unfold promoted? at h
      split at h
      · cases h
      · exact Nat.lt_succ_of_lt (ih h)

/-- No two queued positions were queued at one time. -/
theorem since_inj (hc : queued past c = true) (hc' : queued past c' = true)
    (h : since past c = since past c') : c = c' := by
  induction past with
  | nil => cases hc
  | cons note past ih =>
    cases note with
    | submitted s =>
      -- a position that is queued now was queued before, or it is the one submitted
      have hbefore : ∀ {d}, queued (.submitted s :: past) d = true →
          (s.coords = d ∧ queued past d = false ∧ since (.submitted s :: past) d = past.length) ∨
            queued past d = true ∧ since (.submitted s :: past) d = since past d := by
        intro d hd
        rw [since]
        split
        · next hnew => exact .inl ⟨hnew.1, hnew.2, rfl⟩
        · next hnot =>
          refine .inr ⟨?_, rfl⟩
          rw [queued, Bool.or_eq_true, decide_eq_true_eq] at hd
          rcases hd with rfl | hd
          · simpa using hnot
          · exact hd
      rcases hbefore hc with ⟨rfl, -, hs⟩ | ⟨hold, hs⟩ <;>
        rcases hbefore hc' with ⟨rfl, -, hs'⟩ | ⟨hold', hs'⟩
      · rfl
      · have := since_lt hold'
        omega
      · have := since_lt hold
        omega
      · exact ih hold hold' (by omega)
    | retargeted _ => exact ih hc hc' h
    | served d _ =>
      rw [queued, Bool.and_eq_true] at hc hc'
      exact ih hc.2 hc'.2 h

/-- No two positions were promoted at one time. -/
theorem promoted?_inj {t : Nat} (hc : promoted? past c = some t)
    (hc' : promoted? past c' = some t) : c = c' := by
  induction past with
  | nil => cases hc
  | cons note past ih =>
    cases note with
    | submitted s =>
      have hbefore : ∀ {d}, promoted? (.submitted s :: past) d = some t →
          promoted? past d = some t ∨ s.coords = d ∧ t = past.length := by
        intro d hd
        unfold promoted? at hd
        split at hd
        · next hnew =>
          rcases Option.or_eq_some_iff.mp hd with hold | ⟨-, ht⟩
          · exact .inl hold
          · cases ht
            exact .inr ⟨hnew.1, rfl⟩
        · exact .inl hd
      rcases hbefore hc with hold | ⟨rfl, ht⟩ <;> rcases hbefore hc' with hold' | ⟨rfl, ht'⟩
      · exact ih hold hold'
      · have := promoted?_lt hold
        omega
      · have := promoted?_lt hold'
        omega
      · rfl
    | retargeted _ => exact ih hc hc'
    | served d _ =>
      unfold promoted? at hc hc'
      split at hc
      · cases hc
      · split at hc'
        · cases hc'
        · exact ih hc hc'

/-- Of two queued positions at most one precedes the other. -/
theorem precedes_antisymm (hc : queued past c = true) (hc' : queued past c' = true)
    (h : precedes start past c c' = true) (h' : precedes start past c' c = true) : c = c' := by
  unfold precedes at h h'
  cases ht : promoted? past c with
  | some t =>
    cases ht' : promoted? past c' with
    | some t' =>
      simp only [ht, ht', decide_eq_true_eq] at h h'
      have heq : t = t' := Nat.le_antisymm h h'
      subst heq
      exact promoted?_inj ht ht'
    | none => simp [ht, ht'] at h'
  | none =>
    cases ht' : promoted? past c' with
    | some t' => simp [ht, ht'] at h
    | none =>
      simp only [ht, ht', Bool.or_eq_true, Bool.and_eq_true, decide_eq_true_eq, beq_iff_eq,
        Int64.lt_iff_toInt_lt, ← Int64.toInt_inj] at h h'
      exact since_inj hc hc' (by omega)

/-- **The first position is the queued one that precedes all queued ones.** -/
theorem first?_eq_some_iff :
    first? start past = some c ↔
      queued past c = true ∧ ∀ c', queued past c' = true → precedes start past c c' = true := by
  have hall : ∀ d, (waiting past).all (precedes start past d) = true ↔
      ∀ c', queued past c' = true → precedes start past d c' = true := by
    intro d
    rw [List.all_eq_true]
    exact forall_congr' fun c' => by rw [mem_waiting]
  have hfind : ∀ {d}, first? start past = some d →
      queued past d = true ∧ ∀ c', queued past c' = true → precedes start past d c' = true := by
    intro d hd
    unfold first? at hd
    refine ⟨mem_waiting.mp (List.mem_of_find?_eq_some hd), ?_⟩
    rw [← hall]
    simpa only using List.find?_some hd
  constructor
  · exact hfind
  · rintro ⟨hc, hfirst⟩
    cases hfound : first? start past with
    | none =>
      refine absurd ((hall c).mpr hfirst) ?_
      exact List.find?_eq_none.mp hfound c (mem_waiting.mpr hc)
    | some d =>
      obtain ⟨hd, hdfirst⟩ := hfind hfound
      rw [precedes_antisymm hc hd (hfirst d hd) (hdfirst c hc)]

theorem first?_eq_none (h : ∀ c, queued past c = false) : first? start past = none := by
  refine List.find?_eq_none.mpr fun c hc => ?_
  rw [mem_waiting, h c] at hc
  cases hc

end Past

/-! ## 2. The lanes -/

namespace WorkQueue

variable {α : Type} {q q' : WorkQueue α} {viewer c : ChunkPos} {policy : OnDuplicate}
  {past : Past α} {a : α}

/-- The express lane is in the order of the first promotions, and the tickets of the heap are in the
order in which positions were queued. -/
structure History.Timed (q : WorkQueue α) (past : Past α) : Prop where
  mem_express : ∀ c, c ∈ q.express ↔ (past.promoted? c).isSome = true
  express : q.express.Pairwise fun c c' =>
    ∃ t t', past.promoted? c = some t ∧ past.promoted? c' = some t' ∧ t < t'
  tickets : ∀ w ∈ q.heap.toList, ∀ w' ∈ q.heap.toList, w.ticket ≤ w'.ticket →
    past.since w.coords ≤ past.since w'.coords

namespace History

/-- What waits in the heap is queued and not promoted. -/
theorem queued_of_mem_heap (h : History viewer policy q past) {w : Waiting}
    (hw : w ∈ q.heap.toList) : past.queued w.coords = true := by
  rw [← h.contains_eq, ← h.sound.mem_places]
  exact List.mem_append_right _ (List.mem_map_of_mem hw)

theorem not_mem_express (h : History viewer policy q past) {w : Waiting}
    (hw : w ∈ q.heap.toList) : w.coords ∉ q.express := by
  intro hexpress
  refine (List.nodup_append.mp h.sound.nodup).2.2 _ hexpress w.coords ?_ rfl
  exact List.mem_map_of_mem hw

namespace Timed

/-- A submission keeps the times of what is queued, and takes place after all of them. -/
theorem submit (ht : Timed q past) (h : History viewer policy q past) (s : Submission α) :
    Timed (q.submit s) (.submitted s :: past) := by
  have hkept : ∀ {c t}, past.promoted? c = some t →
      Past.promoted? (.submitted s :: past) c = some t := by
    intro c t hc
    unfold Past.promoted?
    split
    · rw [hc, Option.some_or]
    · exact hc
  have hsince : ∀ {c}, past.queued c = true →
      Past.since (.submitted s :: past) c = past.since c := by
    intro c hc
    rw [Past.since, if_neg (by simp [hc])]
  refine ⟨fun c => ?_, ?_, ?_⟩
  · rw [express_submit]
    unfold Past.promoted?
    by_cases hnew : s.coords = c ∧ s.urgent = true
    · obtain ⟨rfl, hurgent⟩ := hnew
      by_cases hmem : s.coords ∈ q.express <;> simp [hurgent, hmem]
    · rw [if_neg hnew, ← ht.mem_express]
      split
      · next hadded =>
        rw [List.mem_append, List.mem_singleton, or_iff_left]
        rintro rfl
        exact hnew ⟨rfl, hadded.1⟩
      · rfl
  · rw [express_submit]
    have hold : q.express.Pairwise fun c c' => ∃ t t',
        Past.promoted? (.submitted s :: past) c = some t ∧
          Past.promoted? (.submitted s :: past) c' = some t' ∧ t < t' := by
      refine ht.express.imp ?_
      rintro c c' ⟨t, t', hc, hc', hlt⟩
      exact ⟨t, t', hkept hc, hkept hc', hlt⟩
    split
    · next hadded =>
      refine List.pairwise_append.mpr ⟨hold, List.pairwise_singleton _ _, fun c hc c' hc' => ?_⟩
      rw [List.mem_singleton] at hc'
      subst hc'
      obtain ⟨t, hpromoted⟩ := Option.isSome_iff_exists.mp ((ht.mem_express c).mp hc)
      have hnone : past.promoted? s.coords = none := by
        rw [← Option.not_isSome_iff_eq_none, ← ht.mem_express]
        exact hadded.2
      refine ⟨t, past.length, hkept hpromoted, ?_, Past.promoted?_lt hpromoted⟩
      unfold Past.promoted?
      rw [if_pos ⟨rfl, hadded.1⟩, hnone, Option.none_or]
    · exact hold
  · intro w hw w' hw' hle
    rw [h.sound.mem_heap_submit] at hw hw'
    split at hw
    · next hurgent =>
      rw [if_pos hurgent] at hw'
      rw [hsince (h.queued_of_mem_heap hw.1), hsince (h.queued_of_mem_heap hw'.1)]
      exact ht.tickets w hw.1 w' hw'.1 hle
    · next hplain =>
      rw [if_neg hplain] at hw'
      rcases hw' with hold' | ⟨hnew', rfl⟩
      · rcases hw with hold | ⟨-, rfl⟩
        · rw [hsince (h.queued_of_mem_heap hold), hsince (h.queued_of_mem_heap hold')]
          exact ht.tickets w hold w' hold' hle
        · -- the next ticket comes after all that were issued
          have := h.sound.timely.ticket_lt w' hold'
          exact absurd hle (by simpa using this)
      · have hlast : Past.since (.submitted s :: past) s.coords = past.length := by
          rw [Past.since, if_pos ⟨rfl, by rw [← h.contains_eq, hnew']⟩]
        rw [hlast]
        rcases hw with hold | ⟨-, rfl⟩
        · rw [hsince (h.queued_of_mem_heap hold)]
          exact Nat.le_of_lt (Past.since_lt (h.queued_of_mem_heap hold))
        · exact Nat.le_of_eq hlast

/-- Measuring anew changes neither lanes nor tickets. -/
theorem retarget (ht : Timed q past) (next : ChunkPos) :
    Timed (q.retarget next) (.retargeted next :: past) := by
  refine ⟨ht.mem_express, ht.express, fun w hw w' hw' hle => ?_⟩
  obtain ⟨v, hv, rfl⟩ := List.mem_map.mp ((Heap.toList_ofList _ _).mem_iff.mp hw)
  obtain ⟨v', hv', rfl⟩ := List.mem_map.mp ((Heap.toList_ofList _ _).mem_iff.mp hw')
  exact ht.tickets v hv v' hv' hle

/-- What is served leaves its lane, and nothing else moves. -/
theorem serve (ht : Timed q past) (h : History viewer policy q past)
    (hserved : q.dequeue = .ok (some ((c, a), q'))) : Timed q' (.served c a :: past) := by
  obtain ⟨-, -, -, -, ⟨hexpress, hheap⟩ | ⟨hexpress, hexpress', w, rfl, hpop⟩⟩ :=
    dequeue_spec hserved
  · have hnodup : (c :: q'.express).Nodup := by
      rw [← hexpress]
      exact (List.nodup_append.mp h.sound.nodup).1
    obtain ⟨hnot, -⟩ := List.nodup_cons.mp hnodup
    have hpromoted : ∀ c' ∈ q'.express,
        Past.promoted? (.served c a :: past) c' = past.promoted? c' := by
      intro c' hc'
      rw [Past.promoted?, if_neg]
      rintro rfl
      exact hnot hc'
    refine ⟨fun c' => ?_, ?_, ?_⟩
    · unfold Past.promoted?
      by_cases hc : c = c'
      · subst hc
        simpa using hnot
      · rw [if_neg hc, ← ht.mem_express, hexpress, List.mem_cons, or_iff_right (Ne.symm hc)]
    · have hrest := ht.express
      rw [hexpress, List.pairwise_cons] at hrest
      refine hrest.2.imp_of_mem fun {d d'} hd hd' hlt => ?_
      rw [hpromoted d hd, hpromoted d' hd']
      exact hlt
    · rw [hheap]
      exact ht.tickets
  · have hnone : ∀ c', past.promoted? c' = none := by
      intro c'
      rw [← Option.not_isSome_iff_eq_none, ← ht.mem_express, hexpress]
      exact List.not_mem_nil
    have hsub : ∀ v ∈ q'.heap.toList, v ∈ q.heap.toList := by
      intro v hv
      exact (Heap.toList_pop hpop).mem_iff.mpr (List.mem_cons_of_mem _ hv)
    refine ⟨fun c' => ?_, ?_, ?_⟩
    · rw [hexpress']
      unfold Past.promoted?
      simp [hnone c']
    · rw [hexpress']
      exact .nil
    · exact fun v hv v' hv' hle => ht.tickets v (hsub v hv) v' (hsub v' hv') hle

end Timed

/-- **In every history the lanes are in the order of their times.** -/
theorem timed (h : History viewer policy q past) : Timed q past := by
  induction h with
  | empty =>
    refine ⟨fun c => ?_, .nil, nofun⟩
    simp [WorkQueue.empty, Past.promoted?]
  | submit h s ih => exact ih.submit h s
  | retarget _ next ih => exact ih.retarget next
  | serve h hserved ih => exact ih.serve h hserved

/-! ## 3. What is served -/

/-- **What is served precedes all that is queued.** -/
theorem precedes_of_dequeue (h : History viewer policy q past)
    (hserved : q.dequeue = .ok (some ((c, a), q'))) {c' : ChunkPos}
    (hc' : past.queued c' = true) : past.precedes viewer c c' = true := by
  have hplaces : c' ∈ q.express ++ q.heap.toList.map Waiting.coords := by
    rw [← h.contains_eq, ← h.sound.mem_places] at hc'
    exact hc'
  have hnone : ∀ {w}, w ∈ q.heap.toList → past.promoted? w.coords = none := by
    intro w hw
    rw [← Option.not_isSome_iff_eq_none, ← h.timed.mem_express]
    exact h.not_mem_express hw
  unfold Past.precedes
  obtain ⟨-, -, -, -, ⟨hexpress, -⟩ | ⟨hexpress, -, w, rfl, hpop⟩⟩ := dequeue_spec hserved
  · have hc : (past.promoted? c).isSome = true := by
      rw [← h.timed.mem_express, hexpress]
      exact List.mem_cons_self
    obtain ⟨t, ht⟩ := Option.isSome_iff_exists.mp hc
    rcases List.mem_append.mp hplaces with hmem | hmem
    · have horder := h.timed.express
      rw [hexpress] at hmem horder
      rcases List.mem_cons.mp hmem with rfl | hmem
      · simp [ht]
      · obtain ⟨t₁, t', ht₁, ht', hlt⟩ := (List.pairwise_cons.mp horder).1 c' hmem
        rw [ht] at ht₁
        cases ht₁
        simp [ht, ht', Nat.le_of_lt hlt]
    · obtain ⟨w, hw, rfl⟩ := List.mem_map.mp hmem
      simp [ht, hnone hw]
  · rw [hexpress, List.nil_append] at hplaces
    obtain ⟨w', hw', rfl⟩ := List.mem_map.mp hplaces
    have hperm := Heap.toList_pop hpop
    have hw : w ∈ q.heap.toList := hperm.mem_iff.mpr List.mem_cons_self
    have hle : w.le w' = true := by
      rcases List.mem_cons.mp (hperm.mem_iff.mp hw') with rfl | hrest
      · rw [Waiting.le_iff]
        exact .inr ⟨rfl, Nat.le_refl _⟩
      · exact h.sound.timely.ordered.top_le hpop w' hrest
    have hpriority : ∀ {v}, v ∈ q.heap.toList →
        v.priority = v.coords.squaredDistance (past.viewer viewer) := by
      intro v hv
      rw [h.sound.timely.priority v hv, h.viewer_eq]
    rw [Waiting.le_iff, hpriority hw, hpriority hw'] at hle
    simp only [hnone hw, hnone hw', Bool.or_eq_true, Bool.and_eq_true, decide_eq_true_eq,
      beq_iff_eq]
    rcases hle with hlt | ⟨heq, hticket⟩
    · exact .inl hlt
    · exact .inr ⟨heq, h.timed.tickets w hw w' hw' hticket⟩

/-- **A queue serves the first position of its past**, with its payload. -/
theorem dequeue_cases (h : History viewer policy q past) :
    (q.dequeue = .ok none ∧ past.first? viewer = none) ∨
      ∃ c a q', q.dequeue = .ok (some ((c, a), q')) ∧ past.first? viewer = some c ∧
        past.payload? policy c = some a := by
  rcases h.sound.dequeue_cases with ⟨hnone, hempty⟩ | ⟨c, a, q', hserved, ha, -⟩
  · left
    refine ⟨hnone, Past.first?_eq_none fun c => ?_⟩
    rw [← h.contains_eq]
    exact hempty c
  · right
    refine ⟨c, a, q', hserved, Past.first?_eq_some_iff.mpr ⟨?_, fun c' => ?_⟩, ?_⟩
    · rw [← h.contains_eq]
      exact contains_of_dequeue hserved
    · exact h.precedes_of_dequeue hserved
    · rw [← h.pending_eq]
      exact ha

end History

/-! ## 4. Commands -/

/-- What a work queue can be told to do. -/
inductive Command (α : Type) where
  | enqueue (c : ChunkPos) (a : α)
  | promote (c : ChunkPos) (a : α)
  | retarget (viewer : ChunkPos)
  | dequeue

/-- The answers of a queue to the commands to serve work, in order. -/
def answers (q : WorkQueue α) : List (Command α) → Except Fault (List (Option (ChunkPos × α)))
  | [] => .ok []
  | .enqueue c a :: rest => (q.enqueue c a).2.answers rest
  | .promote c a :: rest => (q.promote c a).answers rest
  | .retarget viewer :: rest => (q.retarget viewer).answers rest
  | .dequeue :: rest =>
    match q.dequeue with
    | .error f => .error f
    | .ok none => (q.answers rest).map (none :: ·)
    | .ok (some (work, q)) => (q.answers rest).map (some work :: ·)

end WorkQueue

open WorkQueue in
/-- The answers of a queue that remembers nothing but its past. -/
def Past.answers {α : Type} (start : ChunkPos) (policy : OnDuplicate) :
    Past α → List (Command α) → List (Option (ChunkPos × α))
  | _, [] => []
  | past, .enqueue c a :: rest => answers start policy (.submitted ⟨c, a, false⟩ :: past) rest
  | past, .promote c a :: rest => answers start policy (.submitted ⟨c, a, true⟩ :: past) rest
  | past, .retarget viewer :: rest => answers start policy (.retargeted viewer :: past) rest
  | past, .dequeue :: rest =>
    match (first? start past).bind fun c => (payload? policy past c).map (c, ·) with
    | none => none :: answers start policy past rest
    | some (c, a) => some (c, a) :: answers start policy (.served c a :: past) rest

namespace WorkQueue

variable {α : Type} {q : WorkQueue α} {viewer : ChunkPos} {policy : OnDuplicate} {past : Past α}

theorem History.answers_eq (h : History viewer policy q past) (commands : List (Command α)) :
    q.answers commands = .ok (past.answers viewer policy commands) := by
  induction commands generalizing q past with
  | nil => rfl
  | cons command rest ih =>
    cases command with
    | enqueue c a => exact ih (h.submit ⟨c, a, false⟩)
    | promote c a => exact ih (h.submit ⟨c, a, true⟩)
    | retarget next => exact ih (h.retarget next)
    | dequeue =>
      unfold answers Past.answers
      rcases h.dequeue_cases with ⟨hnone, hfirst⟩ | ⟨c, a, q', hserved, hfirst, ha⟩
      · rw [hnone, hfirst]
        simp only [ih h, Option.bind_none]
        rfl
      · rw [hserved, hfirst]
        simp only [ih (h.serve hserved), Option.bind_some, ha, Option.map_some]
        rfl

/-- **A work queue serves in the order that its past gives**, whatever commands it is given, and
never faults. -/
theorem answers_eq_past (viewer : ChunkPos) (policy : OnDuplicate) (commands : List (Command α)) :
    (empty viewer policy).answers commands = .ok (Past.answers viewer policy [] commands) :=
  History.empty.answers_eq commands

/-- The second promotion of a position replaces its payload and keeps its place. -/
example :
    Past.answers .zero .keep [] [.enqueue ⟨2, 0, 0⟩ 1, .enqueue ⟨1, 0, 0⟩ 2, .promote ⟨3, 0, 0⟩ 3,
        .promote ⟨2, 0, 0⟩ 4, .promote ⟨3, 0, 0⟩ 5, .dequeue, .dequeue, .dequeue, .dequeue] =
      [some (⟨3, 0, 0⟩, 5), some (⟨2, 0, 0⟩, 4), some (⟨1, 0, 0⟩, 2), none] := by
  decide +kernel

end WorkQueue

end Blockworld
