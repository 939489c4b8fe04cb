/-
# Packed quads decode back

A mesh is handed on as bytes: one record of 39 bytes for each quad, one after the other, with
nothing in between.  Nothing of a quad is lost in its record.

* `Quad.unpack?` reads a record at the offsets of its fields.  It does not go by how records are
  written: a word is the number that its four bytes stand for (`signedValue`), the last of which
  also tells the sign;
* `Quad.unpack?_pack`: what is read from the record of a quad is that quad.  A word is found at an
  offset if its bytes are what comes next there (`wordAt?_of_next`);
* `Quad.record_packAll`: the bytes from `39 * k` to `39 * k + 39` are the record of the quad `k`,
  because all records are of one size;
* `Quad.packAll_decodes`: so every quad of a list is read back from its own 39 bytes, and lists that
  have the same bytes are the same.
-/
import Blockworld.Quad

namespace Blockworld

/-! ## 1. Words and points -/

/-- The number that four bytes stand for, the least significant one first, in two's complement: from
128 on, the last byte counts negative. -/
def signedValue (b0 b1 b2 b3 : UInt8) : Int :=
  b0.toNat + 0x100 * b1.toNat + 0x10000 * b2.toNat + 0x1000000 * b3.toNat -
    if b3.toNat < 0x80 then 0 else 0x100000000

/-- The word that starts at a byte. -/
def wordAt? (bytes : List UInt8) (start : Nat) : Option Int32 := do
  let b0 ← bytes[start]?
  let b1 ← bytes[start + 1]?
  let b2 ← bytes[start + 2]?
  let b3 ← bytes[start + 3]?
  return Int32.ofInt (signedValue b0 b1 b2 b3)

/-- The point whose three words start at a byte. -/
def pointAt? (bytes : List UInt8) (start : Nat) : Option Point := do
  let x ← wordAt? bytes start
  let y ← wordAt? bytes (start + 4)
  let z ← wordAt? bytes (start + 8)
  return ⟨x, y, z⟩

/-- The value of a word is that of its bits, less 2 ^ 32 in the upper half of the range. -/
theorem toInt_eq_toNat_toUInt32 (a : Int32) :
    a.toInt = a.toUInt32.toNat - if a.toUInt32.toNat < 0x80000000 then 0 else 0x100000000 := by
  have hbits : a.toInt = if 2 * a.toUInt32.toNat < 0x100000000 then (a.toUInt32.toNat : Int)
      else a.toUInt32.toNat - 0x100000000 := BitVec.toInt_eq_toNat_cond a.toBitVec
  rw [hbits]
  split <;> split <;> omega

/-- **The bytes of a word stand for its value.** -/
theorem signedValue_wordBytes (a : Int32) :
    signedValue a.toUInt32.toUInt8 (a.toUInt32 >>> 8).toUInt8 (a.toUInt32 >>> 16).toUInt8
      (a.toUInt32 >>> 24).toUInt8 = a.toInt := by
  have hword := a.toUInt32.toNat_lt
  rw [toInt_eq_toNat_toUInt32]
  simp only [signedValue, UInt32.toNat_toUInt8, UInt32.toNat_shiftRight, UInt32.toNat_ofNat,
    Nat.shiftRight_eq_div_pow, Nat.reduceMod, Nat.reducePow]
  split <;> split <;> omega

variable {bytes : List UInt8} {start : Nat}

theorem getElem?_add_of_next {part : List UInt8} (h : part <+: bytes.drop start) {i : Nat}
    (hi : i < part.length) : bytes[start + i]? = part[i]? := by
  obtain ⟨after, hafter⟩ := h
  rw [← List.getElem?_drop, ← hafter, List.getElem?_append_left hi]

/-- **A word is read where its bytes come next.** -/
theorem wordAt?_of_next {a : Int32} (h : Quad.wordBytes a <+: bytes.drop start) :
    wordAt? bytes start = some a := by
  have hbyte : ∀ i < 4, bytes[start + i]? = (Quad.wordBytes a)[i]? := fun i hi =>
    getElem?_add_of_next h hi
  unfold wordAt?
  rw [← Nat.add_zero start, hbyte 0 (by decide), Nat.add_zero, hbyte 1 (by decide),
    hbyte 2 (by decide), hbyte 3 (by decide)]
  show some (Int32.ofInt (signedValue _ _ _ _)) = some a
  rw [signedValue_wordBytes, Int32.ofInt_toInt]

/-- What comes next behind a part. -/
theorem next_of_append {part rest : List UInt8} (h : part ++ rest <+: bytes.drop start) :
    rest <+: bytes.drop (start + part.length) := by
  obtain ⟨after, hafter⟩ := h
  refine ⟨after, ?_⟩
  rw [← List.drop_drop, ← hafter, List.append_assoc, List.drop_left]

/-- A point is read where its bytes come next. -/
theorem pointAt?_of_next {p : Point} (h : Quad.pointBytes p <+: bytes.drop start) :
    pointAt? bytes start = some p := by
  have hz : Quad.wordBytes p.z <+: bytes.drop (start + 8) := next_of_append h
  have hxy : Quad.wordBytes p.x ++ Quad.wordBytes p.y <+: bytes.drop start :=
    (List.prefix_append _ _).trans h
  have hy : Quad.wordBytes p.y <+: bytes.drop (start + 4) := next_of_append hxy
  have hx : Quad.wordBytes p.x <+: bytes.drop start := (List.prefix_append _ _).trans hxy
  unfold pointAt?
  rw [wordAt?_of_next hx, wordAt?_of_next hy, wordAt?_of_next hz]
  rfl

/-! ## 2. Records -/

namespace Quad

/-- The quad of a record: the code of the material comes first, the three points start at the bytes
1, 13 and 25, and the light and the metadata are the bytes 37 and 38. -/
def unpack? (record : List UInt8) : Option Quad := do
  let material ← record[0]? >>= Material.ofCode?
  let corner1 ← pointAt? record 1
  let corner2 ← pointAt? record 13
  let normal ← pointAt? record 25
  let light ← record[37]?
  let metadata ← record[38]?
  return ⟨material, corner1, corner2, normal, light, metadata⟩

/-- **What is read from the record of a quad is that quad.** -/
theorem unpack?_pack (q : Quad) : unpack? q.pack = some q := by
  have hcorner1 : pointAt? q.pack 1 = some q.corner1 := pointAt?_of_next
    ⟨pointBytes q.corner2 ++ (pointBytes q.normal ++ [q.light, q.metadata]), rfl⟩
  have hcorner2 : pointAt? q.pack 13 = some q.corner2 := pointAt?_of_next
    ⟨pointBytes q.normal ++ [q.light, q.metadata], rfl⟩
  have hnormal : pointAt? q.pack 25 = some q.normal := pointAt?_of_next
    ⟨[q.light, q.metadata], rfl⟩
  have hmaterial : q.pack[0]? >>= Material.ofCode? = some q.material :=
    Material.ofCode?_code q.material
  unfold unpack?
  rw [hmaterial, hcorner1, hcorner2, hnormal]
  rfl

/-- The bytes that belong to the record with a number. -/
def record (bytes : List UInt8) (k : Nat) : List UInt8 :=
  (bytes.drop (packedSize * k)).take packedSize

theorem packAll_cons (q : Quad) (qs : List Quad) : packAll (q :: qs) = q.pack ++ packAll qs :=
  List.flatMap_cons

theorem length_packAll (qs : List Quad) : (packAll qs).length = packedSize * qs.length := by
  induction qs with
  | nil => rfl
  | cons q qs ih =>
    rw [packAll_cons, List.length_append, length_pack, ih, List.length_cons, Nat.mul_succ,
      Nat.add_comm]

/-- **The records lie side by side**: the bytes of a number are the record of the quad of that
number, and there are none behind the last one. -/
theorem record_packAll (qs : List Quad) (k : Nat) :
    record (packAll qs) k = (qs[k]?.map pack).getD [] := by
  induction qs generalizing k with
  | nil => simp [record, packAll]
  | cons q qs ih =>
    unfold record at ih ⊢
    rw [packAll_cons]
    cases k with
    | zero =>
      rw [Nat.mul_zero, List.drop_zero, ← length_pack q, List.take_left]
      rfl
    | succ k =>
      -- the first record is dropped as a whole
      rw [Nat.mul_succ, Nat.add_comm, ← List.drop_drop, ← length_pack q, List.drop_left,
        length_pack, ih k, List.getElem?_cons_succ]

theorem unpack?_record_packAll (qs : List Quad) (k : Nat) :
    unpack? (record (packAll qs) k) = qs[k]? := by
  rw [record_packAll]
  cases qs[k]? with
  | none => rfl
  | some q => exact unpack?_pack q

/-- **Packed quads decode back.**  A list of quads is packed into 39 bytes for each of them.  The
quad of every number is read from the 39 bytes of that number, and behind the last one nothing is
read.  Hence lists that have the same bytes are the same. -/
theorem packAll_decodes (qs : List Quad) :
    (packAll qs).length = 39 * qs.length ∧
    (∀ k, unpack? (((packAll qs).drop (39 * k)).take 39) = qs[k]?) ∧
    ∀ qs', packAll qs' = packAll qs ↔ qs' = qs := by
  refine ⟨length_packAll qs, unpack?_record_packAll qs, fun qs' => ⟨fun h => ?_, congrArg packAll⟩⟩
  refine List.ext_getElem? fun k => ?_
  rw [← unpack?_record_packAll qs', h, unpack?_record_packAll]

example : pack ⟨.grass, ⟨1, 2, 3⟩, ⟨4, 2, -5⟩, ⟨0, 1, 0⟩, 0x0f, 0x70⟩ =
    [3, 1, 0, 0, 0, 2, 0, 0, 0, 3, 0, 0, 0, 4, 0, 0, 0, 2, 0, 0, 0, 251, 255, 255, 255,
      0, 0, 0, 0, 1, 0, 0, 0, 0, 0, 0, 0, 15, 112] := by decide

end Quad

end Blockworld
