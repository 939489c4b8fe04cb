/-
# Reading configurations

A configuration text is a JSON object whose keys are the names of settings, or a JSON array with the
settings in their declared order.  Settings that are left out keep their defaults, keys that name
no setting are ignored, and a setting may be given only once.  An array may be shorter than the
list of settings but not longer.

Integers have to be written as such and to fit the setting.  A choice is written as its name, or as
an object with the name as its only key and `null` as its value.  A position has all three of its
components, in an object or in an array.
-/
import Blockworld.Config
import Blockworld.JsonText.Value

namespace Blockworld

namespace Config

open JsonText (Value)

/-! ## 1. Settings -/

/-- An integer within bounds.  A negative zero is no integer. -/
def integer? (low high : Int) : Value → Option Int
  | .number (.integer negative magnitude) =>
    if negative && magnitude == 0 then none
    else
      let n : Int := if negative then -magnitude else magnitude
      if low ≤ n ∧ n ≤ high then some n else none
  | _ => none

/-- A 32-bit word. -/
def word? (v : Value) : Option Int32 := (integer? (-0x80000000) 0x7fffffff v).map Int32.ofInt

/-- A number below 2 ^ 64. -/
def count? (v : Value) : Option Nat := (integer? 0 0xffffffffffffffff v).map Int.toNat

/-- An unsigned 32-bit word. -/
def seed? (v : Value) : Option UInt32 :=
  (integer? 0 0xffffffff v).map fun n => UInt32.ofNat n.toNat

/-- One of several named choices. -/
def choice? {α : Type} (options : List α) (name : α → String) : Value → Option α
  | .string (some s) => options.find? (name · == s)
  | .object [(some s, .null)] => options.find? (name · == s)
  | _ => none

/-- The components of a position under construction. -/
abbrev Components := Option Int32 × Option Int32 × Option Int32

/-- Adds a field to the components of a position.  Unknown keys are ignored; a component given twice
is an error, and so is a key that names no text. -/
def component? (p : Components) (field : Option String × Value) : Option Components :=
  match field.1 with
  | none => none
  | some "x" => if p.1.isSome then none else (word? field.2).map fun a => (some a, p.2)
  | some "y" => if p.2.1.isSome then none else (word? field.2).map fun a => (p.1, some a, p.2.2)
  | some "z" => if p.2.2.isSome then none else (word? field.2).map fun a => (p.1, p.2.1, some a)
  | some _ => some p

/-- A position. -/
def position? : Value → Option ChunkPos
  | .array [x, y, z] => do return ⟨← word? x, ← word? y, ← word? z⟩
  | .object fields => do
    let (x, y, z) ← fields.foldlM component? (none, none, none)
    return ⟨← x, ← y, ← z⟩
  | _ => none

/-- A setting: its name and how a value for it is entered. -/
structure Setting where
  name : String
  enter : Value → Config → Option Config

/-- The settings in their declared order. -/
def settings : List Setting :=
  [ ⟨"render_distance", fun v c => (word? v).map ({ c with renderDistance := · })⟩,
    ⟨"world_height", fun v c => (word? v).map ({ c with worldHeight := · })⟩,
    ⟨"mesh_workers", fun v c => (count? v).map ({ c with meshWorkers := · })⟩,
    ⟨"chunk_workers", fun v c => (count? v).map ({ c with chunkWorkers := · })⟩,
    ⟨"channel_capacity", fun v c => (count? v).map ({ c with channelCapacity := · })⟩,
    ⟨"retry_interval_ms", fun v c => (count? v).map ({ c with retryIntervalMs := · })⟩,
    ⟨"generation", fun v c =>
      (choice? Terrain.Method.all Terrain.Method.name v).map ({ c with generation := · })⟩,
    ⟨"seed", fun v c => (seed? v).map ({ c with seed := · })⟩,
    ⟨"sea_level", fun v c => (word? v).map ({ c with seaLevel := · })⟩,
    ⟨"boundary_policy", fun v c =>
      (choice? [.hidden, .exposed] Boundary.name v).map ({ c with boundary := · })⟩,
    ⟨"duplicate_policy", fun v c =>
      (choice? [.keep, .replace] OnDuplicate.name v).map
        ({ c with onDuplicate := · })⟩,
    ⟨"shutdown_mode", fun v c =>
      (choice? [.immediate, .drain] Ending.name v).map ({ c with ending := · })⟩,
    ⟨"viewer", fun v c => (position? v).map ({ c with viewer := · })⟩ ]

/-! ## 2. Texts -/

/-- Enters the fields of an object.  `given` are the settings that have been entered. -/
def enterFields : List (Option String × Value) → List String → Config → Option Config
  | [], _, c => some c
  | (none, _) :: _, _, _ => none
  | (some key, v) :: rest, given, c =>
    match settings.find? (·.name == key) with
    | none => enterFields rest given c
    | some s =>
      if given.contains key then none
      else
        match s.enter v c with
        | some c => enterFields rest (key :: given) c
        | none => none

/-- Enters the elements of an array into the settings in order. -/
def enterElements : List Value → List Setting → Config → Option Config
  | [], _, c => some c
  | _ :: _, [], _ => none
  | v :: rest, s :: settings, c =>
    match s.enter v c with
    | some c => enterElements rest settings c
    | none => none

/-- The configuration that a value describes. -/
def ofValue? : Value → Option Config
  | .object fields => enterFields fields [] {}
  | .array elements => enterElements elements settings {}
  | _ => none

/-- The configuration that a text describes, whether or not it can be run with. -/
def read (text : String) : Except Error Config :=
  match (Value.parse? text).bind ofValue? with
  | some c => .ok c
  | none => .error .json

/-- The configuration that a text describes, if it can be run with. -/
def parse (text : String) : Except Error Config :=
  match read text with
  | .error e => .error e
  | .ok c => c.validate.map fun _ => c

/-- The configuration in a file, given its content if the file exists. -/
def load (content : Option ByteArray) : Except Error Config :=
  match content with
  | none => .error (.io .notFound)
  | some bytes =>
    match String.fromUTF8? bytes with
    | none => .error (.io .invalidUtf8)
    | some text => parse text

end Config

end Blockworld
