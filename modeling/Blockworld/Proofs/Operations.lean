/-
# How operations end

An operation of the engine can fail half-way and leaves behind what it has done.
`Leaves stop op e post` says all that can come of `op`, begun in the state `e`: it ends with a result
and a state as `post` describes, or fails and leaves a state as `stop` describes.  Most of the time
only the ways matter in which it can fail, and not what is left then; that is `Ends fail op e post`.
Where it does not matter how it ends, what is left is `Always op e post`.

The lemmas take an operation apart, one for each way in which operations are put together.  What is
said of a list of operations (`leaves_forEach`) needs a statement that each of them passes on to the
next, indexed by what is left of the list.

In a run that is far from the limits of words operations do not fail: `Leads op e post` says that
`op` can only be cut short because a coordinate overflows.
-/
import Blockworld.Engine
import Blockworld.Proofs.Overflow

namespace Blockworld.Engine

section

variable {α β : Type} {e : Engine} {op : EngineM α}

/-- Reading the state. -/
theorem run_get (e : Engine) : (get : EngineM Engine).run e = (.ok e, e) := rfl

/-- Changing the state. -/
theorem run_modify (f : Engine → Engine) (e : Engine) :
    (modify f : EngineM PUnit).run e = (.ok ⟨⟩, f e) := rfl

/-- One operation after another. -/
theorem run_bind (op : EngineM α) (f : α → EngineM β) (e : Engine) :
    (op >>= f).run e =
      match op.run e with
      | (.ok a, e') => (f a).run e'
      | (.error failure, e') => (.error failure, e') := by
  unfold ExceptT.run
  simp only [bind, ExceptT.bind, ExceptT.mk, StateT.bind, ExceptT.bindCont]
  cases op e with
  | mk result e' => cases result <;> rfl

/-! ## 1. What operations leave behind -/

/-- The operation ends as described, or fails and leaves a state as described. -/
def Leaves {α : Type} (stop : Failure → Engine → Prop) (op : EngineM α) (e : Engine)
    (post : α → Engine → Prop) : Prop :=
  match op.run e with
  | (.ok a, e') => post a e'
  | (.error failure, e') => stop failure e'

section Leaves

variable {stop stop' : Failure → Engine → Prop} {post post' : α → Engine → Prop}

theorem Leaves.mono (h : Leaves stop op e post) (hpost : ∀ a e', post a e' → post' a e')
    (hstop : ∀ failure e', stop failure e' → stop' failure e') : Leaves stop' op e post' := by
  unfold Leaves at h ⊢
  split
  · next heq =>
    rw [heq] at h
    exact hpost _ _ h
  · next heq =>
    rw [heq] at h
    exact hstop _ _ h

/-- Two descriptions of what is left hold together. -/
theorem Leaves.and (h : Leaves stop op e post) (h' : Leaves stop' op e post') :
    Leaves (fun failure e' => stop failure e' ∧ stop' failure e') op e
      fun a e' => post a e' ∧ post' a e' := by
  unfold Leaves at h h' ⊢
  split
  · next heq =>
    rw [heq] at h h'
    exact ⟨h, h'⟩
  · next heq =>
    rw [heq] at h h'
    exact ⟨h, h'⟩

theorem leaves_pure {a : α} (h : post a e) : Leaves stop (pure a) e post := h

theorem leaves_get {post : Engine → Engine → Prop} (h : post e e) : Leaves stop get e post := h

theorem leaves_set {post : PUnit → Engine → Prop} {e' : Engine} (h : post ⟨⟩ e') :
    Leaves stop (set e') e post := h

theorem leaves_modify {post : PUnit → Engine → Prop} {f : Engine → Engine} (h : post ⟨⟩ (f e)) :
    Leaves stop (modify f) e post := h

/-- A computation that may fault changes nothing. -/
theorem leaves_orAbort {x : Except Fault α} (hfault : ∀ f, x = .error f → stop (.aborted f) e)
    (h : ∀ a, x = .ok a → post a e) : Leaves stop (orAbort x) e post := by
  cases x with
  | ok a => exact h a rfl
  | error f => exact hfault f rfl

/-- A message that may not be delivered changes the board in any case. -/
theorem leaves_publish {post : Unit → Engine → Prop} {m : Message}
    (hundelivered : ∀ b cause, e.board.publish m = (b, .error cause) →
      stop (.refused (.delivery cause)) { e with board := b })
    (h : ∀ b, e.board.publish m = (b, .ok ()) → post () { e with board := b }) :
    Leaves stop (publish m) e post := by
  unfold Leaves publish
  rw [run_bind, run_get]
  dsimp only
  cases hpublish : e.board.publish m with
  | mk b result =>
    cases result with
    | ok _ => exact h b hpublish
    | error cause => exact hundelivered b cause hpublish

theorem leaves_bind {f : α → EngineM β} {post : β → Engine → Prop}
    (h : Leaves stop op e fun a e' => Leaves stop (f a) e' post) :
    Leaves stop (op >>= f) e post := by
  unfold Leaves at h ⊢
  rw [run_bind]
  cases hrun : op.run e with
  | mk result e' =>
    rw [hrun] at h
    cases result <;> exact h

/-- **Operations for all elements of a list**, with a statement about what is left of the list that
each of them passes on to the next. -/
theorem leaves_forEach {f : α → EngineM Unit} (inv : List α → Engine → Prop) {l : List α}
    (h : inv l e)
    (hstep : ∀ a rest e', inv (a :: rest) e' →
      Leaves stop (f a) e' fun _ e'' => inv rest e'') :
    Leaves stop (forEach f l) e fun _ e' => inv [] e' := by
  induction l generalizing e with
  | nil => exact h
  | cons a rest ih =>
    exact leaves_bind ((hstep a rest e h).mono (fun _ _ h' => ih h') fun _ _ h' => h')

/-- An operation that has succeeded has ended as described. -/
theorem Leaves.of_outcome_ok (h : Leaves stop op e post) {e' : Engine}
    (heq : outcome op e = (e', .ok ())) : ∃ a, post a e' := by
  unfold Leaves at h
  unfold outcome at heq
  split at heq
  · next a e'' hrun =>
    cases heq
    rw [hrun] at h
    exact ⟨a, h⟩
  · cases heq

/-- An operation that has failed has left what is described. -/
theorem Leaves.of_outcome_error (h : Leaves stop op e post) {e' : Engine} {failure : Failure}
    (heq : outcome op e = (e', .error failure)) : stop failure e' := by
  unfold Leaves at h
  unfold outcome at heq
  split at heq
  · cases heq
  · next failure' e'' hrun =>
    cases heq
    rw [hrun] at h
    exact h

/-- The operation leaves a state as described, whichever way it ends. -/
abbrev Always (op : EngineM α) (e : Engine) (post : Engine → Prop) : Prop :=
  Leaves (fun _ => post) op e fun _ => post

section Always

variable {post post' : Engine → Prop}

theorem Always.mono (h : Always op e post) (himp : ∀ e', post e' → post' e') :
    Always op e post' :=
  Leaves.mono h (fun _ => himp) fun _ => himp

/-- What holds whichever way an operation ends holds once it is over. -/
theorem Always.outcome (h : Always op e post) : post (outcome op e).1 := by
  rcases hout : Engine.outcome op e with ⟨e', failure | _⟩
  · exact h.of_outcome_error hout
  · obtain ⟨-, hpost⟩ := h.of_outcome_ok hout
    exact hpost

end Always

end Leaves

/-! ## 2. Ways to fail -/

/-- The operation ends as described, or fails in one of the given ways. -/
def Ends {α : Type} (fail : Failure → Prop) (op : EngineM α) (e : Engine)
    (post : α → Engine → Prop) : Prop :=
  match op.run e with
  | (.ok a, e') => post a e'
  | (.error failure, _) => fail failure

section Ends

variable {fail : Failure → Prop} {post post' : α → Engine → Prop}

/-- What is left by operations that fail does not matter here. -/
theorem ends_iff_leaves : Ends fail op e post ↔ Leaves (fun failure _ => fail failure) op e post :=
  Iff.rfl

theorem Ends.mono (h : Ends fail op e post) (himp : ∀ a e', post a e' → post' a e') :
    Ends fail op e post' :=
  Leaves.mono (ends_iff_leaves.mp h) himp fun _ _ hfail => hfail

theorem ends_pure {a : α} (h : post a e) : Ends fail (pure a) e post := h

theorem ends_get {post : Engine → Engine → Prop} (h : post e e) : Ends fail get e post := h

theorem ends_set {post : PUnit → Engine → Prop} {e' : Engine} (h : post ⟨⟩ e') :
    Ends fail (set e') e post := h

theorem ends_modify {post : PUnit → Engine → Prop} {f : Engine → Engine} (h : post ⟨⟩ (f e)) :
    Ends fail (modify f) e post := h

/-- A computation that may fault. -/
theorem ends_orAbort {x : Except Fault α} (hfault : ∀ f, x = .error f → fail (.aborted f))
    (h : ∀ a, x = .ok a → post a e) : Ends fail (orAbort x) e post :=
  ends_iff_leaves.mpr (leaves_orAbort hfault h)

/-- A message that may not be delivered. -/
theorem ends_publish {post : Unit → Engine → Prop} {m : Message}
    (hundelivered : ∀ cause, (e.board.publish m).2 = .error cause →
      fail (.refused (.delivery cause)))
    (h : ∀ b, e.board.publish m = (b, .ok ()) → post () { e with board := b }) :
    Ends fail (publish m) e post :=
  ends_iff_leaves.mpr
    (leaves_publish (fun _ cause heq => hundelivered cause (congrArg Prod.snd heq)) h)

theorem ends_bind {f : α → EngineM β} {post : β → Engine → Prop}
    (h : Ends fail op e fun a e' => Ends fail (f a) e' post) : Ends fail (op >>= f) e post :=
  ends_iff_leaves.mpr (leaves_bind h)

/-- Operations for all elements of a list, with a statement about what is left of the list that each
of them passes on to the next. -/
theorem ends_forEach {f : α → EngineM Unit} (inv : List α → Engine → Prop) {l : List α}
    (h : inv l e)
    (hstep : ∀ a rest e', inv (a :: rest) e' → Ends fail (f a) e' fun _ e'' => inv rest e'') :
    Ends fail (forEach f l) e fun _ e' => inv [] e' :=
  ends_iff_leaves.mpr (leaves_forEach inv h hstep)

end Ends

/-! ## 3. Edits -/

/-- An edit that fails has written what it has written. -/
theorem run_edit_error {p : Point} {block : Block} {world : World} {failure : Failure}
    (h : e.world.edit p block = (world, .error failure)) :
    (edit p block).run e = (.error failure, { e with world := world }) := by
  unfold edit
  rw [run_bind, run_get]
  dsimp only
  rw [h]
  rfl

/-- An edit goes on to ask for meshes once the block is written. -/
theorem run_edit_ok {p : Point} {block : Block} {world : World} {touched : List ChunkPos}
    (h : e.world.edit p block = (world, .ok touched)) :
    (edit p block).run e =
      (do forEach (remesh true) touched; return touched : EngineM (List ChunkPos)).run
        { e with world := world } := by
  unfold edit
  rw [run_bind, run_get]
  dsimp only
  rw [h]
  rfl

/-! ## 4. Operations that fail by overflow only -/

/-- The operation ends as described, or is cut short because a word is too small. -/
abbrev Leads (op : EngineM α) (e : Engine) (post : α → Engine → Prop) : Prop :=
  Ends (fun failure => ∃ operation, failure = .aborted (.overflow operation)) op e post

theorem leads_orAbort {x : Except Fault α} {post : α → Engine → Prop} (hx : OverflowOnly x)
    (h : ∀ a, x = .ok a → post a e) : Leads (orAbort x) e post := by
  refine ends_orAbort (fun f hf => ?_) h
  obtain ⟨operation, rfl⟩ := hx f hf
  exact ⟨operation, rfl⟩

/-- A message that can be delivered. -/
theorem leads_publish {post : Unit → Engine → Prop} {m : Message} {b : Switchboard}
    (hpublish : e.board.publish m = (b, .ok ())) (h : post () { e with board := b }) :
    Leads (publish m) e post := by
  refine ends_publish (fun cause hcause => ?_) (fun b' hb' => ?_)
  · rw [hpublish] at hcause
    cases hcause
  · rw [hpublish] at hb'
    cases hb'
    exact h

end

end Blockworld.Engine
