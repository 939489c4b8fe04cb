/-
# Configuration

The settings of an engine, with a default for each, and the rules that a usable configuration
satisfies.  The rules are checked in a fixed order and the first one broken is reported.
-/
import Blockworld.Error
import Blockworld.Queue
import Blockworld.Snapshot
import Blockworld.Terrain
import Blockworld.Worker

namespace Blockworld

/-- The settings of an engine. -/
structure Config where
  /-- The range of loaded chunks around the viewer, in chunks. -/
  renderDistance : Int32 := 3
  /-- The height of the world in cells. -/
  worldHeight : Int32 := 64
  meshWorkers : Nat := 2
  chunkWorkers : Nat := 1
  /-- The number of messages a worker's channel holds. -/
  channelCapacity : Nat := 1000
  /-- The pause between attempts to send to a full channel. -/
  retryIntervalMs : Nat := 10
  generation : Terrain.Method := .perlin
  seed : UInt32 := 0
  seaLevel : Int32 := 20
  boundary : Boundary := .hidden
  /-- Replacing keeps a mesh request current that waits behind an older one. -/
  onDuplicate : OnDuplicate := .replace
  ending : Ending := .immediate
  /-- The chunk the viewer starts in. -/
  viewer : ChunkPos := .zero
  deriving DecidableEq, Repr

namespace Config

/-- A rule that a configuration breaks. -/
inductive Issue where
  | noWorkers
  | zeroCapacity
  | zeroRetryInterval
  | badWorldHeight (height : Int32)
  | negativeRenderDistance (distance : Int32)
  | unalignedViewer (height : Int32)
  deriving DecidableEq, Repr

/-- The text of a broken rule. -/
def Issue.text : Issue → String
  | noWorkers => "at least one mesh worker and one chunk worker are required"
  | zeroCapacity => "channel_capacity must be positive"
  | zeroRetryInterval => "retry_interval_ms must be positive"
  | badWorldHeight height => s!"world_height {height.toInt} is not a positive multiple of 16"
  | negativeRenderDistance distance => s!"render_distance {distance.toInt} is negative"
  | unalignedViewer height => s!"viewer height {height.toInt} is not a chunk floor"

/-- The first rule that a configuration breaks. -/
def issue? (c : Config) : Option Issue :=
  if c.meshWorkers = 0 ∨ c.chunkWorkers = 0 then some .noWorkers
  else if c.channelCapacity = 0 then some .zeroCapacity
  else if c.retryIntervalMs = 0 then some .zeroRetryInterval
  else if c.worldHeight.toInt ≤ 0 ∨ c.worldHeight.toInt % 16 ≠ 0 then
    some (.badWorldHeight c.worldHeight)
  else if c.renderDistance.toInt < 0 then some (.negativeRenderDistance c.renderDistance)
  else if ¬c.viewer.Aligned then some (.unalignedViewer c.viewer.y)
  else none

/-- Accepts a configuration that breaks no rule. -/
def validate (c : Config) : Except Error Unit :=
  match c.issue? with
  | none => .ok ()
  | some issue => .error (.config issue.text)

/-- A configuration that breaks no rule. -/
structure Valid (c : Config) : Prop where
  meshWorkers_pos : 0 < c.meshWorkers
  chunkWorkers_pos : 0 < c.chunkWorkers
  channelCapacity_pos : 0 < c.channelCapacity
  retryIntervalMs_pos : 0 < c.retryIntervalMs
  worldHeight_pos : 0 < c.worldHeight.toInt
  worldHeight_aligned : c.worldHeight.toInt % 16 = 0
  renderDistance_nonneg : 0 ≤ c.renderDistance.toInt
  viewer_aligned : c.viewer.Aligned

/-- No rule is found broken exactly when none is. -/
theorem issue?_eq_none_iff (c : Config) : c.issue? = none ↔ c.Valid := by
  unfold issue?
  constructor
  · intro h
    split at h
    · cases h
    · split at h
      · cases h
      · split at h
        · cases h
        · split at h
          · cases h
          · split at h
            · cases h
            · split at h
              · cases h
              · next h1 h2 h3 h4 h5 h6 =>
                exact ⟨by omega, by omega, by omega, by omega, by omega, by omega, by omega,
                  Decidable.not_not.1 h6⟩
  · rintro ⟨h1, h2, h3, h4, h5, h6, h7, h8⟩
    rw [if_neg (by omega), if_neg (by omega), if_neg (by omega), if_neg (by omega),
      if_neg (by omega), if_neg (not_not_intro h8)]

/-- **A configuration is accepted exactly when it breaks no rule.** -/
theorem validate_eq_ok_iff (c : Config) : c.validate = .ok () ↔ c.Valid := by
  rw [← issue?_eq_none_iff]
  unfold validate
  cases c.issue? with
  | none => exact iff_of_true rfl rfl
  | some issue => exact iff_of_false nofun nofun

end Config

end Blockworld
