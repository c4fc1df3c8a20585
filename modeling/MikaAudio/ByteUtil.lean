import MikaAudio.Lib.Thread
import Mathlib.Tactic.IntervalCases

/-!
# `ByteUtil`: integers as bytes

The client and the server each have a copy of `util/ByteUtil.java`.  A Java
`int` is a `BitVec 32`, a `byte` a `BitVec 8` that is sign-extended when it is
used as an `int`, and `in.read()` gives `0..255`, or `-1` at the end of the
stream (`inRead`).  The two copies agree on everything defined here but
`readInt(byte[], int, int)`: the client counts the `n` bytes from the offset
(`Client.readIntN`), the server takes the last `n` of the four bytes at the
offset (`Server.readIntN`).
-/

namespace MikaAudio

open Thread (Byte)

/-- A Java `int`. -/
abbrev JInt := BitVec 32

/-- The value of `in.read()`: a byte as `0..255`, or `-1` at the end. -/
def inRead : Option Byte → JInt
  | some b => b.setWidth 32
  | none => -1

theorem inRead_setWidth {k : JInt} (h : k.toNat < 256) : inRead (some (k.setWidth 8)) = k := by
  apply BitVec.eq_of_toNat_eq
  simp only [inRead, BitVec.toNat_setWidth]
  omega

/-! ### Byte arrays -/

/-- A `byte` used as an `int`. -/
def byteAt (data : List Byte) (i : Nat) : JInt := (data.getD i 0).signExtend 32

/-- `readByte(byte[], int)`. -/
def readByte (data : List Byte) (offset : Nat) : JInt := byteAt data offset &&& 0xFF

/-- `readInt(byte[], int)`. -/
def readInt (data : List Byte) (offset : Nat) : JInt :=
  byteAt data offset <<< 24 ||| (byteAt data (offset + 1) &&& 0xFF) <<< 16
    ||| (byteAt data (offset + 2) &&& 0xFF) <<< 8 ||| (byteAt data (offset + 3) &&& 0xFF)

/-- The client's `readInt(byte[], int, int)`: `n` bytes from the offset on. -/
def Client.readIntN (data : List Byte) (offset n : Nat) : JInt :=
  match n with
  | 1 => byteAt data offset &&& 0xFF
  | 2 => (byteAt data offset &&& 0xFF) <<< 8 ||| (byteAt data (offset + 1) &&& 0xFF)
  | 3 => (byteAt data offset &&& 0xFF) <<< 16 ||| (byteAt data (offset + 1) &&& 0xFF) <<< 8
      ||| (byteAt data (offset + 2) &&& 0xFF)
  | _ => readInt data offset

/-- The server's `readInt(byte[], int, int)`: the last `n` of four bytes. -/
def Server.readIntN (data : List Byte) (offset n : Nat) : JInt :=
  match n with
  | 1 => byteAt data (offset + 3) &&& 0xFF
  | 2 => (byteAt data (offset + 2) &&& 0xFF) <<< 8 ||| (byteAt data (offset + 3) &&& 0xFF)
  | 3 => (byteAt data (offset + 1) &&& 0xFF) <<< 16
      ||| (byteAt data (offset + 2) &&& 0xFF) <<< 8 ||| (byteAt data (offset + 3) &&& 0xFF)
  | _ => readInt data offset

/-- `writeInt(byte[], int, int)`; `writeInt(byte[], int)` is the offset `0`. -/
def writeInt (data : List Byte) (value : JInt) (offset : Nat) : List Byte :=
  (((data.set offset ((value >>> 24).setWidth 8)).set (offset + 1)
    ((value >>> 16).setWidth 8)).set (offset + 2) ((value >>> 8).setWidth 8)).set (offset + 3)
    (value.setWidth 8)

@[simp] theorem length_writeInt (data : List Byte) (v : JInt) (o : Nat) :
    (writeInt data v o).length = data.length := by
  simp [writeInt]

/-! ### Floats -/

/-- A Java `float`, as its bits. -/
abbrev JFloat := BitVec 32

/-- `readFloat(byte[], int)`. -/
def readFloat (data : List Byte) (offset : Nat) : JFloat := readInt data offset

/-- `Float.floatToIntBits`: the bits, with one value for all that are no numbers. -/
def floatToIntBits (x : JFloat) : JInt :=
  if 0x7F800000 < x &&& 0x7FFFFFFF then 0x7FC00000 else x

/-- `writeFloat(byte[], float, int)`. -/
def writeFloat (data : List Byte) (value : JFloat) (offset : Nat) : List Byte :=
  writeInt data (floatToIntBits value) offset

/-! ### Longs -/

/-- A Java `long`. -/
abbrev JLong := BitVec 64

/-- A `byte` used as a `long`. -/
def longAt (data : List Byte) (i : Nat) : JLong := (data.getD i 0).signExtend 64

/-- `readLong(byte[], int)`. -/
def readLong (data : List Byte) (offset : Nat) : JLong :=
  (0 : JLong) + (longAt data offset &&& 0xFF) <<< 56 + (longAt data (offset + 1) &&& 0xFF) <<< 48
    + (longAt data (offset + 2) &&& 0xFF) <<< 40 + (longAt data (offset + 3) &&& 0xFF) <<< 32
    + (longAt data (offset + 4) &&& 0xFF) <<< 24 + (longAt data (offset + 5) &&& 0xFF) <<< 16
    + (longAt data (offset + 6) &&& 0xFF) <<< 8 + (longAt data (offset + 7) &&& 0xFF)

/-- `writeLong(byte[], long, int)`, with Java's `>>`, which copies the sign. -/
def writeLong (data : List Byte) (value : JLong) (offset : Nat) : List Byte :=
  (((((((data.set offset ((value.sshiftRight 56).setWidth 8)).set (offset + 1)
    ((value.sshiftRight 48).setWidth 8)).set (offset + 2)
    ((value.sshiftRight 40).setWidth 8)).set (offset + 3)
    ((value.sshiftRight 32).setWidth 8)).set (offset + 4)
    ((value.sshiftRight 24).setWidth 8)).set (offset + 5)
    ((value.sshiftRight 16).setWidth 8)).set (offset + 6)
    ((value.sshiftRight 8).setWidth 8)).set (offset + 7) (value.setWidth 8)

/-! ### Streams -/

/-- The four bytes `writeInt(OutputStream, int)` writes, `out.write` keeping the
low eight bits. -/
def intBytes (value : JInt) : List Byte :=
  [(value >>> 24).setWidth 8, (value >>> 16).setWidth 8, (value >>> 8).setWidth 8,
    value.setWidth 8]

@[simp] theorem length_intBytes (v : JInt) : (intBytes v).length = 4 := rfl

/-- What `readInt(InputStream)` makes of the results of its four reads. -/
def readIntStream (b1 b2 b3 b4 : JInt) : JInt :=
  b1 <<< 24 ||| (b2 &&& 0xFF) <<< 16 ||| (b3 &&& 0xFF) <<< 8 ||| (b4 &&& 0xFF)

/-- `readInt(InputStream)` on the list of its four reads. -/
def readIntOf : List JInt → JInt
  | [b1, b2, b3, b4] => readIntStream b1 b2 b3 b4
  | _ => 0

/-! ### Round trips -/

theorem readIntOf_intBytes (v : JInt) :
    readIntOf ((intBytes v).map fun b => inRead (some b)) = v := by
  simp only [intBytes, List.map_cons, List.map_nil, readIntOf, readIntStream, inRead]
  ext i hi
  interval_cases i
  all_goals simp

theorem byteAt_writeInt_of_ne (data : List Byte) (v : JInt) {o i : Nat}
    (h : i < o ∨ o + 4 ≤ i) : byteAt (writeInt data v o) i = byteAt data i := by
  simp only [byteAt, writeInt, List.getD_eq_getElem?_getD]
  rw [List.getElem?_set_ne (by omega), List.getElem?_set_ne (by omega),
    List.getElem?_set_ne (by omega), List.getElem?_set_ne (by omega)]

theorem readInt_writeInt (data : List Byte) (v : JInt) (o : Nat) (h : o + 4 ≤ data.length) :
    readInt (writeInt data v o) o = v := by
  have h0 : (writeInt data v o)[o]?.getD 0 = (v >>> 24).setWidth 8 := by
    simp [writeInt, show o < data.length by omega]
  have h1 : (writeInt data v o)[o + 1]?.getD 0 = (v >>> 16).setWidth 8 := by
    simp [writeInt, show o + 1 < data.length by omega]
  have h2 : (writeInt data v o)[o + 2]?.getD 0 = (v >>> 8).setWidth 8 := by
    simp [writeInt, show o + 2 < data.length by omega]
  have h3 : (writeInt data v o)[o + 3]?.getD 0 = v.setWidth 8 := by
    simp [writeInt, show o + 3 < data.length by omega]
  simp only [readInt, byteAt, List.getD_eq_getElem?_getD, h0, h1, h2, h3]
  ext i hi
  interval_cases i
  all_goals simp [BitVec.getElem_signExtend]

theorem readInt_writeInt_of_disjoint (data : List Byte) (v : JInt) {o p : Nat}
    (h : p + 4 ≤ o ∨ o + 4 ≤ p) : readInt (writeInt data v o) p = readInt data p := by
  simp only [readInt]
  rw [byteAt_writeInt_of_ne _ _ (by omega), byteAt_writeInt_of_ne _ _ (by omega),
    byteAt_writeInt_of_ne _ _ (by omega), byteAt_writeInt_of_ne _ _ (by omega)]

/-- **Three bytes are read back** where the value has no more, whatever is in front of
them. -/
theorem readIntN_three {v : JInt} (h : v.toNat < 2 ^ 24) (b : Byte) (rest : List Byte) :
    Client.readIntN (b :: ((intBytes v).tail ++ rest)) 1 3 = v := by
  have hbits : ∀ i (hi : i < 32), 24 ≤ i → v[i] = false := fun i _ hle =>
    Nat.testBit_lt_two_pow (Nat.lt_of_lt_of_le h (Nat.pow_le_pow_right (by decide) hle))
  simp only [Client.readIntN, byteAt, intBytes, List.tail_cons, List.cons_append,
    List.nil_append, List.getD_cons_succ, List.getD_cons_zero]
  ext i hi
  interval_cases i
  all_goals simp [BitVec.getElem_signExtend, hbits]

end MikaAudio
