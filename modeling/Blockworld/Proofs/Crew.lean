/-
# The crew at the start

An engine starts with a channel for each worker: the workers that generate chunks come first, those
that mesh behind them (`Engine.channels_crew`).  No worker has received anything yet, so all of them
serve whatever positions are routed to them, and a configuration that breaks no rule asks for at
least one worker of each kind.  That makes the switchboard of a started engine staffed
(`Engine.staffed_crew`).
-/
import Blockworld.Engine
import Blockworld.Proofs.Routing

namespace Blockworld

/-! ## 1. Idle channels -/

namespace Channel

/-- The channel of a worker that has been sent nothing. -/
def idle (name : String) (job : Job) (scheduling : Scheduling) : Channel :=
  ⟨name, Switchboard.workerTopics job, [], 0, .worker (.start job name scheduling)⟩

/-- **A worker that has been sent nothing serves any positions.** -/
theorem serves_idle (name : String) (job : Job) (scheduling : Scheduling)
    (mine : ChunkPos → Prop) :
    (idle name job scheduling).Serves (.start job name scheduling) scheduling.policy mine where
  subscriber := rfl
  topics := rfl
  fault := rfl
  phase := nofun
  policy := rfl
  queue := WorkQueue.sound_empty scheduling.viewer scheduling.policy
  pending c r hr := by
    have hnone : (∅ : Std.TreeMap ChunkPos job.Request)[c]? = some r := hr
    rw [Std.TreeMap.getElem?_emptyc] at hnone
    cases hnone
  held m hm := by cases hm
  inbox m hm := by cases hm

end Channel

namespace Switchboard

variable {b b' : Switchboard}

/-- A worker that is added gets an idle channel behind the others. -/
theorem eq_of_spawn {name : String} {job : Job} {scheduling : Scheduling}
    (h : b.spawn name job scheduling = .ok b') : b' = b.attach (.idle name job scheduling) := by
  unfold spawn at h
  split at h
  · cases h
  · next ch hch =>
    unfold Channel.create at hch
    split at hch
    · cases hch
      split at h
      · cases h
      · cases h
        rfl
    · cases hch

/-- A worker is added if there is room for its channel and its name has no null character. -/
theorem spawn_eq_ok {name : String} {job : Job} {scheduling : Scheduling}
    (hroom : b.capacity * Channel.slotBytes ≤ Channel.addressableBytes)
    (hname : name.toList.contains '\x00' = false) :
    b.spawn name job scheduling = .ok (b.attach (.idle name job scheduling)) := by
  unfold spawn Channel.create
  rw [if_pos hroom]
  simp only [hname]
  rfl

end Switchboard

namespace Engine

/-! ## 2. The workers of a configuration -/

/-- Channels of workers of one job, numbered from `first`. -/
def idleChannels (label : String) (job : Job) (scheduling : Scheduling) (first count : Nat) :
    List Channel :=
  (List.range' first count).map fun k => .idle s!"{label}-{k}" job scheduling

theorem spawnWorkers_spec {label : String} {job : Job} {scheduling : Scheduling} {first count : Nat}
    {b b' : Switchboard} (h : spawnWorkers label job scheduling first count b = .ok b') :
    b'.channels = b.channels ++ idleChannels label job scheduling first count ∧
      b'.responses = b.responses := by
  induction count generalizing first b with
  | zero =>
    cases h
    exact ⟨(List.append_nil _).symm, rfl⟩
  | succ count ih =>
    unfold spawnWorkers at h
    split at h
    · cases h
    · next b₁ hspawn =>
      have hb₁ := Switchboard.eq_of_spawn hspawn
      obtain ⟨hchannels, hresponses⟩ := ih h
      subst hb₁
      refine ⟨?_, hresponses⟩
      rw [hchannels, Switchboard.attach, List.append_assoc]
      rfl

variable {config : Config} {b : Switchboard}

/-- **The channels at the start**: those of the workers that generate, then those of the workers
that mesh. -/
theorem channels_crew (h : crew config = .ok b) :
    b.channels =
        idleChannels "chunk-gen" (.generate (terrain config)) (scheduling config) 0
          config.chunkWorkers ++
        idleChannels "mesh-gen" (.mesh config.boundary) (scheduling config) 0 config.meshWorkers ∧
      b.responses = [] := by
  unfold crew at h
  split at h
  · cases h
  · next b₁ hgenerate =>
    obtain ⟨hchannels₁, hresponses₁⟩ := spawnWorkers_spec hgenerate
    obtain ⟨hchannels, hresponses⟩ := spawnWorkers_spec h
    refine ⟨?_, hresponses.trans hresponses₁⟩
    rw [hchannels, hchannels₁]
    rfl

/-- Every channel at the start is idle and that of a hired worker. -/
theorem eq_idle_of_mem_crew (h : crew config = .ok b) {ch : Channel} (hch : ch ∈ b.channels) :
    ∃ name job, job.Hired config.boundary ∧ ch = .idle name job (scheduling config) := by
  rw [(channels_crew h).1, List.mem_append] at hch
  rcases hch with hch | hch
  · obtain ⟨k, -, rfl⟩ := List.mem_map.mp hch
    exact ⟨_, _, .inl ⟨_, rfl⟩, rfl⟩
  · obtain ⟨k, -, rfl⟩ := List.mem_map.mp hch
    exact ⟨_, _, .inr rfl, rfl⟩

/-- Every kind of request has a worker at the start. -/
theorem exists_mem_crew (hvalid : config.Valid) (h : crew config = .ok b) {t : Topic}
    (ht : t.isRequest = true) : ∃ ch ∈ b.channels, ch.subscribes t = true := by
  have hfirst {label : String} {job : Job} {count : Nat} (hcount : 0 < count) :
      Channel.idle s!"{label}-{0}" job (scheduling config) ∈
        idleChannels label job (scheduling config) 0 count :=
    List.mem_map.mpr ⟨0, List.mem_range'_1.mpr ⟨Nat.le_refl 0, by omega⟩, rfl⟩
  rw [(channels_crew h).1]
  cases t with
  | chunkRequest =>
    exact ⟨_, List.mem_append_left _ (hfirst hvalid.chunkWorkers_pos), by rfl⟩
  | meshRequest =>
    exact ⟨_, List.mem_append_right _ (hfirst hvalid.meshWorkers_pos), by rfl⟩
  | _ => cases ht

/-- **The switchboard of a started engine is staffed.** -/
theorem staffed_crew (hvalid : config.Valid) (h : crew config = .ok b) :
    b.Staffed config.onDuplicate config.boundary where
  serves i ch hch := by
    obtain ⟨name, job, hhired, rfl⟩ := eq_idle_of_mem_crew h (List.mem_of_getElem? hch)
    exact ⟨_, hhired, Channel.serves_idle name job (scheduling config) _⟩
  staffed t ht := by
    obtain ⟨ch, hch, hsubscribes⟩ := exists_mem_crew hvalid h ht
    obtain ⟨i, hi⟩ := List.mem_iff_getElem?.mp hch
    exact List.ne_nil_of_mem (a := i) (Switchboard.mem_subscribers.mpr ⟨ch, hi, hsubscribes⟩)
  answers m hm := by
    rw [(channels_crew h).2] at hm
    cases hm

end Engine

end Blockworld
