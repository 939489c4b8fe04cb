/-
# Workers that a request stops

A fault in a worker stops that worker and nobody else.  The main loop does not notice until it has
something to send: then the channel has hung up.

* The worker who makes meshes is stopped by corrupt snapshots and by no others, for snapshots of
  chunks in which anything is solid (`ActiveWorker.process_fault_iff`).  The step in which it takes
  such a snapshot up is the last one it takes (`Channel.isConnected_process`).
* Corrupt snapshots come about by edits, which write any code.  So there are runs of an engine in
  which nobody is left to make meshes: `Engine.forsaken` is the end of one
  (`Engine.forsaken_reached`, `Engine.isConnectedAt_forsaken`).

What becomes of the operations of the main loop in such a state is the subject of other modules.
-/
import Blockworld.Proofs.Broadcasts
import Blockworld.Proofs.Corruption
import Blockworld.Proofs.Interleavings

namespace Blockworld

/-! ## 1. Corrupt snapshots -/

/-- The snapshot that a worker is about to mesh. -/
def ActiveWorker.nextSnapshot? : ActiveWorker → Option Snapshot
  | ⟨.mesh _, worker, _, _⟩ =>
    match worker.take with
    | .ok (some t) => some t.request
    | _ => none
  | _ => none

/-- The snapshot that the worker on a channel meshes in its next step. -/
def Channel.nextSnapshot? (c : Channel) : Option Snapshot :=
  match c.subscriber with
  | .worker a => if a.isRunning && a.held.isNone then a.nextSnapshot? else none
  | .outside _ => none

namespace ActiveWorker

/-- A worker is stopped by the requests that its service faults on. -/
theorem process_fault_iff_error {a : ActiveWorker} {t : Worker.Taken a.job.Request}
    (htake : a.worker.take = .ok (some t)) (ha : a.fault = none) :
    a.process.fault.isSome = true ↔ ∃ f, a.job.service.process t.coords t.request = .error f := by
  unfold process
  rw [htake]
  dsimp only
  cases a.job.service.process t.coords t.request with
  | error f => exact iff_of_true rfl ⟨f, rfl⟩
  | ok response => exact iff_of_false (by simp [ha]) nofun

/-- **Corrupt snapshots stop a worker**, and no others do. -/
theorem process_fault_iff {a : ActiveWorker} {s : Snapshot} (hnext : a.nextSnapshot? = some s)
    (hsolid : s.chunk.isEmpty = false) (ha : a.fault = none) :
    a.process.fault.isSome = true ↔ s.Corrupt := by
  obtain ⟨job, worker, held, fault⟩ := a
  cases job with
  | generate _ => cases hnext
  | relay => cases hnext
  | mesh policy =>
    unfold nextSnapshot? at hnext
    dsimp only at hnext
    split at hnext
    · next t htake =>
      obtain rfl : t.request = s := Option.some.inj hnext
      have hmesh : Decodes ((t.request.mesh policy).map Message.meshResponse)
          (¬t.request.Corrupt) := by
        unfold Snapshot.mesh
        rw [hsolid]
        exact ((Snapshot.decodes_quads _ policy).map.congr Snapshot.forall_readable_iff).map
      exact (process_fault_iff_error htake ha).trans (hmesh.fails_iff.trans not_not)
    · cases hnext

end ActiveWorker

/-- **A worker who takes up a corrupt snapshot hangs up.** -/
theorem Channel.isConnected_process {c : Channel} {s : Snapshot} (hnext : c.nextSnapshot? = some s)
    (hsolid : s.chunk.isEmpty = false) (hcorrupt : s.Corrupt) :
    c.process.1.subscriber.isConnected = false := by
  unfold nextSnapshot? at hnext
  cases ha : c.subscriber with
  | outside _ => rw [ha] at hnext; cases hnext
  | worker a =>
    rw [ha] at hnext
    unfold process
    rw [ha]
    dsimp only at hnext ⊢
    split at hnext
    · next hready =>
      obtain ⟨hrunning, -⟩ := Bool.and_eq_true_iff.mp hready
      have hfault : a.fault = none := by
        unfold ActiveWorker.isRunning at hrunning
        simpa using (Bool.and_eq_true_iff.mp hrunning).1
      have hstopped := (ActiveWorker.process_fault_iff hnext hsolid hfault).mpr hcorrupt
      rw [if_pos hready]
      show a.process.isRunning = false
      unfold ActiveWorker.isRunning
      rw [Option.isNone_eq_false_iff.mpr hstopped, Bool.false_and]
    · cases hnext

/-! ## 2. A run in which a worker is stopped -/

namespace Engine

/-- The chunk of the meadow is generated, and an unknown block is written into it before it is
meshed. -/
def blightActions : List Action :=
  [.load, .receive 0, .process 0, .deliver 0, .handleNext, .edit ⟨0, 0, 0⟩ ⟨200, 0⟩, .receive 1,
    .receive 1]

/-- The meadow with an unknown block in it. -/
def blighted : Engine := meadowStart.after blightActions

/-- The meadow once the unknown block has stopped the only worker that makes meshes. -/
def forsaken : Engine := meadowStart.after (blightActions ++ [.process 1])

/-- The meadow gets there once everything in range has been asked for. -/
theorem forsaken_reached :
    start meadow = .ok meadowStart ∧ (meadowStart.step .load).2 = .ok () ∧
      ∃ actions, forsaken = (meadowStart.step .load).1.after actions :=
  ⟨start_meadow, by decide +kernel, blightActions.tail ++ [.process 1], rfl⟩

theorem exists_nextSnapshot?_blighted :
    ∃ ch s, blighted.board.channels[1]? = some ch ∧ ch.nextSnapshot? = some s ∧
      s.chunk.isEmpty = false ∧ s.Corrupt := by
  have hnext : (blighted.board.channels[1]?.bind Channel.nextSnapshot?).any (fun s =>
      !s.chunk.isEmpty && decide (7 < (s.chunk.get ⟨0, 0, 0⟩).code)) = true := by
    decide +kernel
  obtain ⟨s, hs, hprops⟩ := (Option.any_eq_true _ _).mp hnext
  obtain ⟨ch, hch, hs⟩ := Option.bind_eq_some_iff.mp hs
  obtain ⟨hsolid, hcode⟩ := Bool.and_eq_true_iff.mp hprops
  exact ⟨ch, s, hch, hs, by simpa using hsolid, .inl ⟨⟨0, 0, 0⟩, of_decide_eq_true hcode⟩⟩

/-- **Nobody is left to make meshes.** -/
theorem isConnectedAt_forsaken : forsaken.board.isConnectedAt 1 = false := by
  obtain ⟨ch, s, hch, hnext, hsolid, hcorrupt⟩ := exists_nextSnapshot?_blighted
  have hboard : forsaken.board = blighted.board.advance 1 Channel.process := rfl
  have hlt := (List.getElem?_eq_some_iff.mp hch).1
  rw [hboard, Switchboard.advance_eq hch, Switchboard.isConnectedAt, Switchboard.swap,
    List.getElem?_set_self hlt]
  exact Channel.isConnected_process hnext hsolid hcorrupt

end Engine

end Blockworld
