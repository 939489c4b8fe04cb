/-
# A world is a map from points to blocks

Chunks are inserted, removed, written to and dropped, and a block is found by dividing the
coordinates of its point.  Seen from outside there are only points and blocks: this module reads the
block at a point off the HISTORY of a world, the list of changes made to it, the latest first.

* `World.standing?`: the chunk inserted at a position, if nothing has removed it since;
* `World.written?`: the latest block written at a point since its chunk was last inserted;
* `World.recorded`: the block at a point.  It is air outside the vertical range and where no chunk
  stands, else what was written there last, and else what the inserted chunk had.

`World.blockAt_after` proves that a world reads as recorded, whatever its history, and with it that
an edit is heard at its own point only and refused for the two reasons there are.  The invariant
(`World.Records`) has one case per change.  That different points never meet is
`ChunkPos.owner_place_injective`, and that an edit is not cut short by an overflow needs a height
that is a multiple of 16 (`ChunkPos.exists_neighbors_owner`).
-/
import Blockworld.Proofs.Invalidation

namespace Blockworld

/-! ## 1. Points -/

namespace ChunkPos

/-- **Points in one chunk and at one place of it are one point.** -/
theorem owner_place_injective {p q : Point} (howner : owner p = owner q)
    (hplace : place p = place q) : p = q := by
  obtain ⟨hpx, hpy, hpz⟩ := owner_toInt p
  obtain ⟨hqx, hqy, hqz⟩ := owner_toInt q
  have hquotient : ∀ d, (p.along d).toInt / 16 = (q.along d).toInt / 16 := by
    rw [howner] at hpx hpy hpz
    intro d
    cases d <;> simp only [Point.along] <;> omega
  have hremainder : ∀ d, (p.along d).toInt % 16 = (q.along d).toInt % 16 := by
    intro d
    have hd : (remainder (p.along d)).val = (remainder (q.along d)).val := by
      have hcell := congrArg (Cell.along · d) hplace
      cases d <;> exact Fin.ext_iff.mp hcell
    unfold remainder at hd
    dsimp only at hd
    omega
  refine Point.ext_along fun d => Int32.toInt_inj.mp ?_
  have h1 := hquotient d
  have h2 := hremainder d
  omega

/-- The chunk of a point in range has a neighbour on every side, if the range ends at a chunk
floor. -/
theorem exists_neighbors_owner {p : Point} {height : Int32} (hheight : height.toInt % 16 = 0)
    (hlow : 0 ≤ p.y) (hhigh : p.y < height) : ∃ around, (owner p).neighbors = .ok around := by
  rw [Int32.le_iff_toInt_le] at hlow
  rw [Int32.lt_iff_toInt_lt] at hhigh
  have hzero : (0 : Int32).toInt = 0 := rfl
  obtain ⟨hx, hy, hz⟩ := owner_toInt p
  have hpx := inRange32_toInt p.x
  have hpz := inRange32_toInt p.z
  have hh := inRange32_toInt height
  unfold InRange32 at hpx hpz hh
  have hside : ∀ s, ∃ n, (owner p).neighbor s = .ok n := by
    intro s
    have hstep : ∀ d, -1 ≤ (s.normal.along d).toInt ∧ (s.normal.along d).toInt ≤ 1 := by
      intro d
      cases s <;> cases d <;> decide
    have hsx := hstep .x
    have hsy := hstep .y
    have hsz := hstep .z
    simp only [Point.along] at hsx hsy hsz
    refine ⟨⟨.ofInt ((owner p).x.toInt + s.normal.x.toInt),
      .ofInt ((owner p).y.toInt + s.normal.y.toInt * 16),
      .ofInt ((owner p).z.toInt + s.normal.z.toInt)⟩, neighbor_eq_ok_iff.mpr ⟨?_, ?_, ?_⟩⟩ <;>
      exact toInt_ofInt32 (by unfold InRange32; omega)
  choose n hn using hside
  exact ⟨.ofFn n, neighbors_eq_ok_iff.mpr fun s => by rw [PerSide.get_ofFn, hn]⟩

end ChunkPos

namespace World

open ChunkPos

/-! ## 2. Histories -/

/-- One change of a world. -/
inductive Change where
  | insert (chunk : Chunk)
  | erase (c : ChunkPos)
  | write (p : Point) (block : Block)
  | trim (center : ChunkPos) (radius : Int32)

/-- The world after a change. -/
def change (w : World) : Change → World
  | .insert chunk => w.insert chunk
  | .erase c => w.erase c
  | .write p block => (w.edit p block).1
  | .trim center radius => (w.trim center radius).1

/-- The world after a history, which lists the latest change first. -/
def after (height : Int32) : List Change → World
  | [] => empty height
  | change :: past => (after height past).change change

/-- The chunk inserted at a position, if it has not been removed or dropped since. -/
def standing? (c : ChunkPos) : List Change → Option Chunk
  | [] => none
  | .insert chunk :: past => if chunk.position = c then some chunk else standing? c past
  | .erase gone :: past => if gone = c then none else standing? c past
  | .write _ _ :: past => standing? c past
  | .trim center radius :: past => if isOutside center radius c then none else standing? c past

/-- The latest block that an edit wrote at a point since the chunk of the point was last
inserted. -/
def written? (height : Int32) (p : Point) : List Change → Option Block
  | [] => none
  | .insert chunk :: past => if chunk.position = owner p then none else written? height p past
  | .erase _ :: past => written? height p past
  | .write q block :: past =>
    if q = p ∧ ((after height past).edit q block).2.isOk then some block
    else written? height p past
  | .trim _ _ :: past => written? height p past

/-- **The block at a point according to a history.** -/
def recorded (height : Int32) (past : List Change) (p : Point) : Block :=
  if 0 ≤ p.y ∧ p.y < height then
    match standing? (owner p) past with
    | some chunk => (written? height p past).getD (chunk.get (place p))
    | none => Block.air
  else Block.air

/-! ## 3. Edits -/

variable {w w' : World} {height : Int32} {p q : Point} {block : Block}

theorem inRange_eq_true_iff {y : Int32} : w.inRange y = true ↔ 0 ≤ y ∧ y < w.height := by
  simp [inRange]

/-- What the three outcomes of an edit are, where it cannot be cut short. -/
theorem edit_cases (hheight : w.height.toInt % 16 = 0)
    (hcoherent : ∀ c chunk, w.chunk? c = some chunk → chunk.Coherent) (p : Point) (block : Block) :
    (w.edit p block = (w, .error (.refused (.outOfRange p))) ∧ ¬(0 ≤ p.y ∧ p.y < w.height)) ∨
      (w.edit p block = (w, .error (.refused (.notLoaded (owner p)))) ∧
        (0 ≤ p.y ∧ p.y < w.height) ∧ w.chunk? (owner p) = none) ∨
      ∃ w' touched before after, w.edit p block = (w', .ok touched) ∧
        (0 ≤ p.y ∧ p.y < w.height) ∧ w.chunk? (owner p) = some before ∧
        before.set (place p) block = .ok after ∧ after.Coherent ∧
        w' = { w with chunks := w.chunks.insert (owner p) after } := by
  by_cases hrange : 0 ≤ p.y ∧ p.y < w.height
  · have hin : w.inRange p.y = true := inRange_eq_true_iff.mpr hrange
    right
    cases hbefore : w.chunk? (owner p) with
    | none =>
      left
      refine ⟨?_, hrange, rfl⟩
      unfold edit
      simp [hin, hbefore]
    | some before =>
      right
      obtain ⟨after, hset, hafter⟩ := (hcoherent _ _ hbefore).set (place p) block
      obtain ⟨around, haround⟩ := exists_neighbors_owner hheight hrange.1 hrange.2
      exact ⟨_, _, before, after,
        edit_eq_ok_iff.mpr ⟨hin, before, after, around, hbefore, hset, haround, rfl, rfl⟩,
        hrange, rfl, hset, hafter, rfl⟩
  · left
    refine ⟨?_, hrange⟩
    have hout : w.inRange p.y = false := by
      rw [← Bool.not_eq_true, inRange_eq_true_iff]
      exact hrange
    unfold edit
    simp [hout]

/-! ## 4. Histories and worlds -/

/-- What a history records of a world. -/
structure Records (height : Int32) (past : List Change) (w : World) : Prop where
  height_eq : w.height = height
  coherent : ∀ c chunk, w.chunk? c = some chunk → chunk.Coherent
  standing : ∀ c, (w.chunk? c).isSome = (standing? c past).isSome
  block : ∀ p chunk inserted, w.chunk? (owner p) = some chunk →
    standing? (owner p) past = some inserted →
    chunk.get (place p) = (written? height p past).getD (inserted.get (place p))

theorem Records.empty (height : Int32) : Records height [] (empty height) where
  height_eq := rfl
  coherent := by
    intro c chunk h
    rw [chunk?_empty] at h
    cases h
  standing := by
    intro c
    rw [chunk?_empty]
    rfl
  block := by
    intro p chunk inserted h
    rw [chunk?_empty] at h
    cases h

variable {past : List Change}

theorem Records.insert (h : Records height past w) {chunk : Chunk} (hchunk : chunk.Coherent) :
    Records height (.insert chunk :: past) (w.insert chunk) where
  height_eq := h.height_eq
  coherent := by
    intro c other hc
    rw [chunk?_insert] at hc
    split at hc
    · cases hc
      exact hchunk
    · exact h.coherent c other hc
  standing := by
    intro c
    rw [chunk?_insert, standing?]
    split
    · rfl
    · exact h.standing c
  block := by
    intro p other inserted hc hstanding
    rw [chunk?_insert] at hc
    rw [standing?] at hstanding
    rw [written?]
    by_cases hhere : chunk.position = owner p
    · rw [if_pos hhere] at hc hstanding ⊢
      cases hc
      cases hstanding
      rfl
    · rw [if_neg hhere] at hc hstanding ⊢
      exact h.block p other inserted hc hstanding

/-- Chunks that go leave the record of the others as it is. -/
theorem Records.drop (h : Records height past w) {change : Change} {gone : ChunkPos → Prop}
    [DecidablePred gone] (hheight : w'.height = w.height)
    (hchunk : ∀ c, w'.chunk? c = if gone c then none else w.chunk? c)
    (hstanding : ∀ c, standing? c (change :: past) = if gone c then none else standing? c past)
    (hwritten : ∀ p, written? height p (change :: past) = written? height p past) :
    Records height (change :: past) w' where
  height_eq := hheight.trans h.height_eq
  coherent := by
    intro c chunk hc
    rw [hchunk] at hc
    split at hc
    · cases hc
    · exact h.coherent c chunk hc
  standing := by
    intro c
    rw [hchunk, hstanding]
    split
    · rfl
    · exact h.standing c
  block := by
    intro p chunk inserted hc hinserted
    rw [hchunk] at hc
    rw [hstanding] at hinserted
    rw [hwritten]
    split at hc
    · cases hc
    · next hstays =>
      rw [if_neg hstays] at hinserted
      exact h.block p chunk inserted hc hinserted

/-- An edit that is refused is not recorded. -/
theorem Records.refuse (h : Records height past w) (hw : w = after height past) {cause : Error}
    (hedit : w.edit p block = (w, .error (.refused cause))) :
    Records height (.write p block :: past) w where
  height_eq := h.height_eq
  coherent := h.coherent
  standing := h.standing
  block := by
    intro q chunk inserted hc hstanding
    have hfails : ((after height past).edit p block).2.isOk = false := by
      rw [← hw, hedit]
      rfl
    rw [written?, if_neg (by simp [hfails])]
    exact h.block q chunk inserted hc hstanding

/-- An edit that succeeds is recorded at its point. -/
theorem Records.write (h : Records height past w) (hw : w = World.after height past)
    {touched : List ChunkPos} {before after : Chunk} (hedit : w.edit p block = (w', .ok touched))
    (hbefore : w.chunk? (owner p) = some before)
    (hset : before.set (place p) block = .ok after) (hafter : after.Coherent)
    (hw' : w' = { w with chunks := w.chunks.insert (owner p) after }) :
    Records height (.write p block :: past) w' where
  height_eq := by rw [hw', ← h.height_eq]
  coherent := by
    intro c chunk hc
    rw [chunk?_replace hw'] at hc
    split at hc
    · cases hc
      exact hafter
    · exact h.coherent c chunk hc
  standing := by
    intro c
    rw [← contains_eq_isSome, contains_replace hbefore hw', contains_eq_isSome]
    exact h.standing c
  block := by
    intro q chunk inserted hc hstanding
    have hsucceeds : ((World.after height past).edit p block).2.isOk = true := by
      rw [← hw, hedit]
      rfl
    rw [standing?] at hstanding
    rw [written?]
    rw [chunk?_replace hw'] at hc
    by_cases hpq : p = q
    · subst hpq
      rw [if_pos rfl] at hc
      cases hc
      rw [if_pos ⟨rfl, hsucceeds⟩, Chunk.get_of_set hset, if_pos rfl]
      rfl
    · rw [if_neg fun hand => hpq hand.1]
      by_cases howner : owner p = owner q
      · -- another place of the written chunk
        rw [if_pos howner] at hc
        cases hc
        have hplace : place q ≠ place p := fun heq => hpq (owner_place_injective howner heq.symm)
        rw [Chunk.get_of_set hset, if_neg hplace]
        exact h.block q before inserted (howner ▸ hbefore) hstanding
      · rw [if_neg howner] at hc
        exact h.block q chunk inserted hc hstanding

/-- **Every history records its world.** -/
theorem records_after (hheight : height.toInt % 16 = 0)
    (hpast : ∀ chunk, .insert chunk ∈ past → chunk.Coherent) :
    Records height past (after height past) := by
  induction past with
  | nil => exact .empty height
  | cons change past ih =>
    have h := ih fun chunk hmem => hpast chunk (List.mem_cons_of_mem _ hmem)
    cases change with
    | insert chunk => exact h.insert (hpast chunk List.mem_cons_self)
    | erase gone =>
      exact h.drop rfl (chunk?_erase _ gone) (fun _ => rfl) fun _ => rfl
    | trim center radius =>
      exact h.drop rfl (chunk?_trim _ center radius) (fun _ => rfl) fun _ => rfl
    | write p block =>
      have haligned : (after height past).height.toInt % 16 = 0 := by rwa [h.height_eq]
      rw [after, World.change]
      rcases edit_cases haligned h.coherent p block with
        ⟨hedit, -⟩ | ⟨hedit, -⟩ |
          ⟨w', touched, before, after', hedit, -, hbefore, hset, hafter, hw'⟩
      · rw [hedit]
        exact h.refuse rfl hedit
      · rw [hedit]
        exact h.refuse rfl hedit
      · rw [hedit]
        exact h.write rfl hedit hbefore hset hafter hw'

/-! ## 5. Reading and writing -/

/-- A world reads as recorded. -/
theorem Records.blockAt (h : Records height past w) (p : Point) :
    w.blockAt p = recorded height past p := by
  unfold World.blockAt recorded
  rw [← h.height_eq]
  by_cases hrange : 0 ≤ p.y ∧ p.y < w.height
  · rw [if_pos (inRange_eq_true_iff.mpr hrange), if_pos hrange]
    have hstanding := h.standing (owner p)
    cases hchunk : w.chunk? (owner p) with
    | none =>
      rw [hchunk] at hstanding
      have hnone : standing? (owner p) past = none := by simpa using hstanding.symm
      rw [hnone]
    | some chunk =>
      rw [hchunk] at hstanding
      obtain ⟨inserted, hinserted⟩ := Option.isSome_iff_exists.mp hstanding.symm
      rw [hinserted]
      dsimp only
      rw [h.height_eq]
      exact h.block p chunk inserted hchunk hinserted
  · rw [if_neg (by simpa [inRange_eq_true_iff] using hrange), if_neg hrange]

/-- **An edit is heard at its own point only.** -/
theorem blockAt_edit {touched : List ChunkPos} (h : w.edit p block = (w', .ok touched))
    (q : Point) : w'.blockAt q = if q = p then block else w.blockAt q := by
  obtain ⟨hrange, before, after, -, hbefore, hset, -, hw', -⟩ := edit_eq_ok_iff.mp h
  have hin : w'.inRange q.y = w.inRange q.y := by rw [hw']; rfl
  unfold World.blockAt
  rw [hin, chunk?_replace hw']
  by_cases hqp : q = p
  · subst hqp
    rw [if_pos hrange, if_pos rfl, if_pos rfl]
    dsimp only
    rw [Chunk.get_of_set hset, if_pos rfl]
  · rw [if_neg hqp]
    by_cases howner : owner p = owner q
    · have hplace : place q ≠ place p := fun heq => hqp (owner_place_injective howner.symm heq)
      rw [if_pos howner, ← howner, hbefore]
      dsimp only
      rw [Chunk.get_of_set hset, if_neg hplace]
    · rw [if_neg howner]

/-- **An edit fails for one of two reasons, and then changes nothing.** -/
theorem edit_eq_error_iff (hheight : w.height.toInt % 16 = 0)
    (hcoherent : ∀ c chunk, w.chunk? c = some chunk → chunk.Coherent) {failure : Failure} :
    w.edit p block = (w', .error failure) ↔ w' = w ∧
      ((failure = .refused (.outOfRange p) ∧ ¬(0 ≤ p.y ∧ p.y < w.height)) ∨
        (failure = .refused (.notLoaded (owner p)) ∧ (0 ≤ p.y ∧ p.y < w.height) ∧
          w.contains (owner p) = false)) := by
  rw [contains_eq_isSome, Option.isSome_eq_false_iff, Option.isNone_iff_eq_none]
  rcases edit_cases hheight hcoherent p block with
    ⟨hedit, hrange⟩ | ⟨hedit, hrange, hnone⟩ |
      ⟨w'', touched, before, after, hedit, hrange, hbefore, -⟩
  · rw [hedit]
    simp [hrange, eq_comm]
  · rw [hedit]
    simp [hrange, hnone, eq_comm]
  · rw [hedit]
    simp [hrange, hbefore]

/-- **A world is a map from points to blocks.**  Whatever was done to it, the chunks that stand
according to its history are those that are loaded, and every point reads as recorded.  A further
edit that succeeds changes the reading of its own point and of no other; one that fails changes
nothing, and fails because the point is out of range or its chunk is not loaded. -/
theorem blockAt_after (height : Int32) (past : List Change) (hheight : height.toInt % 16 = 0)
    (hpast : ∀ chunk, .insert chunk ∈ past → chunk.Coherent) :
    (∀ c, (after height past).contains c = (standing? c past).isSome) ∧
      (∀ p, (after height past).blockAt p = recorded height past p) ∧
      (∀ p block w' touched, (after height past).edit p block = (w', .ok touched) →
        ∀ q, w'.blockAt q = if q = p then block else (after height past).blockAt q) ∧
      ∀ p block w' failure, (after height past).edit p block = (w', .error failure) ↔
        w' = after height past ∧
          ((failure = .refused (.outOfRange p) ∧ ¬(0 ≤ p.y ∧ p.y < height)) ∨
            (failure = .refused (.notLoaded (owner p)) ∧ (0 ≤ p.y ∧ p.y < height) ∧
              (after height past).contains (owner p) = false)) := by
  have h := records_after hheight hpast
  refine ⟨fun c => ?_, h.blockAt, fun p block w' touched hedit q => blockAt_edit hedit q,
    fun p block w' failure => ?_⟩
  · rw [contains_eq_isSome]
    exact h.standing c
  · have haligned : (after height past).height.toInt % 16 = 0 := by rwa [h.height_eq]
    rw [edit_eq_error_iff haligned h.coherent, h.height_eq]

/-- A chunk of stone below zero, and a window written into it. -/
def carved : List Change :=
  [.write ⟨-1, 3, 7⟩ (.ofMaterial .glass), .insert (.filled ⟨-1, 0, 0⟩ (.ofMaterial .stone))]

/-- The window is read at its own point only, and beside the chunk nothing can be written. -/
theorem blockAt_after_carved :
    (16 : Int32).toInt % 16 = 0 ∧ (∀ chunk, .insert chunk ∈ carved → chunk.Coherent) ∧
      (after 16 carved).blockAt ⟨-1, 3, 7⟩ = .ofMaterial .glass ∧
      (after 16 carved).blockAt ⟨-1, 4, 7⟩ = .ofMaterial .stone ∧
      (after 16 carved).blockAt ⟨0, 3, 7⟩ = .air ∧
      ∀ block w' failure, (after 16 carved).edit ⟨0, 3, 7⟩ block = (w', .error failure) ↔
        w' = after 16 carved ∧ failure = .refused (.notLoaded .zero) := by
  have hpast : ∀ chunk, .insert chunk ∈ carved → chunk.Coherent := by
    simp only [carved, List.mem_cons, reduceCtorEq, Change.insert.injEq, List.not_mem_nil, or_false,
      false_or, forall_eq]
    exact Chunk.coherent_filled _ _
  obtain ⟨hcontains, hread, -, herror⟩ := blockAt_after 16 carved rfl hpast
  -- the window was written, because the chunk stood by then
  have hwritten : written? 16 ⟨-1, 3, 7⟩ carved = some (.ofMaterial .glass) := by
    obtain ⟨hbefore, -, -, hfail⟩ := blockAt_after 16 (carved.drop 1) rfl
      fun chunk hmem => hpast chunk (List.mem_of_mem_drop hmem)
    refine if_pos ⟨rfl, ?_⟩
    cases hedit : (after 16 (carved.drop 1)).edit ⟨-1, 3, 7⟩ (.ofMaterial .glass) with
    | mk w' result =>
      cases result with
      | ok touched => exact congrArg (·.2.isOk) hedit
      | error failure =>
        obtain ⟨-, ⟨-, hrange⟩ | ⟨-, -, hnot⟩⟩ := (hfail _ _ _ _).mp hedit
        · exact absurd (by decide) hrange
        · rw [hbefore] at hnot
          cases hnot
  refine ⟨rfl, hpast, ?_, ?_, ?_, fun block w' failure => ?_⟩
  · rw [hread, recorded, if_pos (by decide), hwritten]
    rfl
  · rw [hread, recorded, if_pos (by decide)]
    exact Chunk.get_filled _ _ _
  · rw [hread]
    rfl
  · have hnot : (after 16 carved).contains (owner ⟨0, 3, 7⟩) = false := hcontains _
    have howner : owner ⟨0, 3, 7⟩ = .zero := rfl
    have hrange : (0 : Int32) ≤ 3 ∧ (3 : Int32) < 16 := by decide
    rw [herror, hnot, howner]
    simp [hrange]

end World

end Blockworld
