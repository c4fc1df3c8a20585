import MikaAudio.ByteUtil
import MikaAudio.Lib.Code

/-!
# The two copies of `ByteUtil` as codecs

A copy is the record of its methods.  Behind `readInt` and `writeInt` is a code of four
bytes (`intCode`), behind `readLong` and `writeLong` one of eight (`longCode`); with them
the array laws are the laws of a code.  The copies differ in
`readInt(byte[], int, int)` only.
-/

namespace MikaAudio

open Thread (Byte)
open Buffer

/-! ### Four bytes -/

theorem intBytes_readInt : ∀ ys : List Byte, ys.length = 4 → intBytes (readInt ys 0) = ys
  | [b0, b1, b2, b3], _ => by
    simp only [intBytes, readInt, byteAt, List.getD_cons_succ, List.getD_cons_zero,
      List.cons.injEq, and_true]
    refine ⟨?_, ?_, ?_, ?_⟩
    all_goals
      ext i hi
      interval_cases i
      all_goals simp [BitVec.getElem_signExtend]

theorem readInt_intBytes (v : JInt) : readInt (intBytes v) 0 = v := by
  simp only [intBytes, readInt, byteAt, List.getD_cons_succ, List.getD_cons_zero]
  ext i hi
  interval_cases i
  all_goals simp [BitVec.getElem_signExtend]

/-- The code behind `readInt` and `writeInt`. -/
def intCode : Code Byte JInt where
  width := 4
  encode := intBytes
  decode ys := readInt ys 0
  length_encode := length_intBytes
  decode_encode := readInt_intBytes
  encode_decode := intBytes_readInt

/-! ### Eight bytes -/

/-- The eight bytes of a `long`, the highest first. -/
def longBytes (value : JLong) : List Byte :=
  [(value.sshiftRight 56).setWidth 8, (value.sshiftRight 48).setWidth 8,
    (value.sshiftRight 40).setWidth 8, (value.sshiftRight 32).setWidth 8,
    (value.sshiftRight 24).setWidth 8, (value.sshiftRight 16).setWidth 8,
    (value.sshiftRight 8).setWidth 8, value.setWidth 8]

@[simp] theorem length_longBytes (v : JLong) : (longBytes v).length = 8 := rfl

theorem longAt_and (data : List Byte) (i : Nat) :
    longAt data i &&& 0xFF = (data.getD i 0).setWidth 64 := by
  rw [longAt]
  generalize data.getD i 0 = b
  ext i hi
  interval_cases i
  all_goals simp [BitVec.getElem_signExtend]

theorem toNat_shift (b : Byte) {k : Nat} (h : k ≤ 56) :
    (b.setWidth 64 <<< k).toNat = b.toNat * 2 ^ k := by
  have hb : b.toNat * 2 ^ k < 2 ^ 64 := calc
    b.toNat * 2 ^ k < 2 ^ 8 * 2 ^ k := Nat.mul_lt_mul_of_pos_right b.isLt (Nat.two_pow_pos k)
    _ = 2 ^ (8 + k) := (Nat.pow_add 2 8 k).symm
    _ ≤ 2 ^ 64 := Nat.pow_le_pow_right (by decide) (by omega)
  rw [BitVec.toNat_shiftLeft, BitVec.toNat_setWidth, Nat.shiftLeft_eq,
    Nat.mod_eq_of_lt (show b.toNat < 2 ^ 64 by omega), Nat.mod_eq_of_lt hb]

theorem toNat_readLong (b0 b1 b2 b3 b4 b5 b6 b7 : Byte) :
    (readLong [b0, b1, b2, b3, b4, b5, b6, b7] 0).toNat =
      b0.toNat * 2 ^ 56 + b1.toNat * 2 ^ 48 + b2.toNat * 2 ^ 40 + b3.toNat * 2 ^ 32 +
        b4.toNat * 2 ^ 24 + b5.toNat * 2 ^ 16 + b6.toNat * 2 ^ 8 + b7.toNat := by
  have hlow : (b7.setWidth 64).toNat = b7.toNat := by
    rw [BitVec.toNat_setWidth, Nat.mod_eq_of_lt (by omega)]
  have h0 := b0.isLt
  have h1 := b1.isLt
  have h2 := b2.isLt
  have h3 := b3.isLt
  have h4 := b4.isLt
  have h5 := b5.isLt
  have h6 := b6.isLt
  have h7 := b7.isLt
  simp only [readLong, longAt_and, List.getD_cons_succ, List.getD_cons_zero,
    show (0 : JLong).toNat = 0 from rfl, Nat.zero_add, BitVec.toNat_add, Nat.mod_add_mod, hlow,
    toNat_shift _ (show 56 ≤ 56 by decide),
    toNat_shift _ (show 48 ≤ 56 by decide), toNat_shift _ (show 40 ≤ 56 by decide),
    toNat_shift _ (show 32 ≤ 56 by decide), toNat_shift _ (show 24 ≤ 56 by decide),
    toNat_shift _ (show 16 ≤ 56 by decide), toNat_shift _ (show 8 ≤ 56 by decide)]
  refine Nat.mod_eq_of_lt ?_
  omega

/-- The lower bits of a shift do not show the sign. -/
theorem toNat_sshiftRight (v : JLong) {k : Nat} (h : k ≤ 56) :
    ((v.sshiftRight k).setWidth 8).toNat = v.toNat / 2 ^ k % 256 := by
  have hbits : (v.sshiftRight k).setWidth 8 = (v >>> k).setWidth 8 := by
    ext i hi
    simp [BitVec.getElem_sshiftRight, show k + i < 64 by omega, show i < 64 by omega]
  rw [hbits, BitVec.toNat_setWidth, BitVec.toNat_ushiftRight, Nat.shiftRight_eq_div_pow]

theorem sshiftRight_eq {v : JLong} {b : Byte} {k : Nat} (hk : k ≤ 56)
    (h : v.toNat / 2 ^ k % 256 = b.toNat) : (v.sshiftRight k).setWidth 8 = b := by
  apply BitVec.eq_of_toNat_eq
  rw [toNat_sshiftRight v hk, h]

theorem longBytes_readLong : ∀ ys : List Byte, ys.length = 8 → longBytes (readLong ys 0) = ys
  | [b0, b1, b2, b3, b4, b5, b6, b7], _ => by
    have hv := toNat_readLong b0 b1 b2 b3 b4 b5 b6 b7
    generalize readLong [b0, b1, b2, b3, b4, b5, b6, b7] 0 = v at hv
    have h0 := b0.isLt
    have h1 := b1.isLt
    have h2 := b2.isLt
    have h3 := b3.isLt
    have h4 := b4.isLt
    have h5 := b5.isLt
    have h6 := b6.isLt
    have h7 := b7.isLt
    simp only [longBytes, List.cons.injEq, and_true]
    have hlow : v.setWidth 8 = b7 := by
      apply BitVec.eq_of_toNat_eq
      rw [BitVec.toNat_setWidth]
      omega
    exact ⟨sshiftRight_eq (by decide) (by omega), sshiftRight_eq (by decide) (by omega),
      sshiftRight_eq (by decide) (by omega), sshiftRight_eq (by decide) (by omega),
      sshiftRight_eq (by decide) (by omega), sshiftRight_eq (by decide) (by omega),
      sshiftRight_eq (by decide) (by omega), hlow⟩

theorem readLong_longBytes (v : JLong) : readLong (longBytes v) 0 = v := by
  apply BitVec.eq_of_toNat_eq
  have hv := v.isLt
  rw [longBytes, toNat_readLong, toNat_sshiftRight v (by decide), toNat_sshiftRight v (by decide),
    toNat_sshiftRight v (by decide), toNat_sshiftRight v (by decide),
    toNat_sshiftRight v (by decide), toNat_sshiftRight v (by decide),
    toNat_sshiftRight v (by decide), BitVec.toNat_setWidth]
  omega

/-- The code behind `readLong` and `writeLong`. -/
def longCode : Code Byte JLong where
  width := 8
  encode := longBytes
  decode ys := readLong ys 0
  length_encode := length_longBytes
  decode_encode := readLong_longBytes
  encode_decode := longBytes_readLong

/-! ### The array methods are those of a code -/

theorem readInt_eq_get (data : List Byte) (o : Nat) : readInt data o = intCode.get data o := by
  simp [Code.get, intCode, readInt, byteAt, List.getD_eq_getElem?_getD]

theorem readLong_eq_get (data : List Byte) (o : Nat) : readLong data o = longCode.get data o := by
  simp [Code.get, longCode, readLong, longAt, List.getD_eq_getElem?_getD]

theorem writeInt_eq_put {data : List Byte} {o : Nat} (h : o + 4 ≤ data.length) (v : JInt) :
    writeInt data v o = intCode.put data o v := by
  simp (disch := (repeat rw [List.length_set]); omega) only
    [Code.put, intCode, intBytes, overwrite_cons, overwrite_nil]
  rfl

theorem writeLong_eq_put {data : List Byte} {o : Nat} (h : o + 8 ≤ data.length) (v : JLong) :
    writeLong data v o = longCode.put data o v := by
  simp (disch := (repeat rw [List.length_set]); omega) only
    [Code.put, longCode, longBytes, overwrite_cons, overwrite_nil]
  rfl

section

variable {data : List Byte} {o k : Nat}

theorem getElem?_writeInt (h : o + 4 ≤ data.length) (v : JInt) (hk : k < o ∨ o + 4 ≤ k) :
    (writeInt data v o)[k]? = data[k]? := by
  rw [writeInt_eq_put h]
  exact Code.getElem?_put h hk

theorem writeInt_readInt (h : o + 4 ≤ data.length) : writeInt data (readInt data o) o = data := by
  rw [readInt_eq_get, writeInt_eq_put h]
  exact Code.put_get h

theorem take_drop_writeInt (h : o + 4 ≤ data.length) (v : JInt) :
    ((writeInt data v o).drop o).take 4 = intBytes v := by
  rw [writeInt_eq_put h]
  exact take_drop_of_partOf (@partOf_overwrite _ data (intBytes v) o h)

theorem readLong_writeLong (h : o + 8 ≤ data.length) (v : JLong) :
    readLong (writeLong data v o) o = v := by
  rw [readLong_eq_get, writeLong_eq_put h]
  exact Code.get_put h

theorem getElem?_writeLong (h : o + 8 ≤ data.length) (v : JLong) (hk : k < o ∨ o + 8 ≤ k) :
    (writeLong data v o)[k]? = data[k]? := by
  rw [writeLong_eq_put h]
  exact Code.getElem?_put h hk

theorem writeLong_readLong (h : o + 8 ≤ data.length) :
    writeLong data (readLong data o) o = data := by
  rw [readLong_eq_get, writeLong_eq_put h]
  exact Code.put_get h

end

/-! ### Streams -/

/-- `in.read()` on a stream that will bring these bytes and then ends. -/
def read : List Byte → JInt × List Byte
  | [] => (inRead none, [])
  | b :: rest => (inRead (some b), rest)

/-- `readInt(InputStream)`: the value and what is left of the stream. -/
def readIntIn (stream : List Byte) : JInt × List Byte :=
  let (b1, stream) := read stream
  let (b2, stream) := read stream
  let (b3, stream) := read stream
  let (b4, stream) := read stream
  (readIntStream b1 b2 b3 b4, stream)

/-- `writeInt(OutputStream, int)`. -/
def writeIntOut (out : List Byte) (value : JInt) : List Byte :=
  out ++ intBytes value

theorem readIntIn_writeIntOut (v : JInt) (rest : List Byte) :
    readIntIn (writeIntOut [] v ++ rest) = (v, rest) :=
  congrArg (·, rest) (readIntOf_intBytes v)

/-! ### A copy, and its laws -/

/-- The methods of a copy. -/
structure ByteUtil where
  readInt : List Byte → Nat → JInt
  readIntN : List Byte → Nat → JInt → JInt
  readIntIn : List Byte → JInt × List Byte
  readLong : List Byte → Nat → JLong
  writeInt : List Byte → JInt → Nat → List Byte
  writeIntOut : List Byte → JInt → List Byte
  writeLong : List Byte → JLong → Nat → List Byte

/-- The client's copy. -/
def Client.byteUtil : ByteUtil where
  readInt := MikaAudio.readInt
  readIntN data offset n := Client.readIntN data offset n.toNat
  readIntIn := MikaAudio.readIntIn
  readLong := MikaAudio.readLong
  writeInt := MikaAudio.writeInt
  writeIntOut := MikaAudio.writeIntOut
  writeLong := MikaAudio.writeLong

/-- The server's copy. -/
def Server.byteUtil : ByteUtil where
  readInt := MikaAudio.readInt
  readIntN data offset n := Server.readIntN data offset n.toNat
  readIntIn := MikaAudio.readIntIn
  readLong := MikaAudio.readLong
  writeInt := MikaAudio.writeInt
  writeIntOut := MikaAudio.writeIntOut
  writeLong := MikaAudio.writeLong

/-- One write to an array. -/
inductive Put
  | int (offset : Nat) (value : JInt)
  | long (offset : Nat) (value : JLong)

namespace Put

/-- The first place of a write. -/
def offset : Put → Nat
  | int o _ => o
  | long o _ => o

/-- How many bytes it writes. -/
def size : Put → Nat
  | int _ _ => 4
  | long _ _ => 8

/-- The write. -/
def write (u : ByteUtil) (data : List Byte) : Put → List Byte
  | int o v => u.writeInt data v o
  | long o v => u.writeLong data v o

/-- The value is read where it was written. -/
def ReadsBack (u : ByteUtil) (data : List Byte) : Put → Prop
  | int o v => u.readInt data o = v
  | long o v => u.readLong data o = v

/-- The two ranges share no place. -/
def Disjoint (p q : Put) : Prop :=
  p.offset + p.size ≤ q.offset ∨ q.offset + q.size ≤ p.offset

/-- The bytes of a write, at their place. -/
def block : Put → Nat × List Byte
  | int o v => (o, intBytes v)
  | long o v => (o, longBytes v)

end Put

/-- **The laws of a copy**: every value is read back, a write changes nothing else, and
writing what was read changes nothing. -/
structure RoundTrips (u : ByteUtil) : Prop where
  readInt_writeInt : ∀ data v o, o + 4 ≤ data.length → u.readInt (u.writeInt data v o) o = v
  writeInt_elsewhere : ∀ data v o k, o + 4 ≤ data.length → (k < o ∨ o + 4 ≤ k) →
    (u.writeInt data v o)[k]? = data[k]?
  writeInt_readInt : ∀ data o, o + 4 ≤ data.length → u.writeInt data (u.readInt data o) o = data
  writeIntOut : ∀ out data v o, o + 4 ≤ data.length →
    u.writeIntOut out v = out ++ ((u.writeInt data v o).drop o).take 4
  readIntIn : ∀ v rest, u.readIntIn (u.writeIntOut [] v ++ rest) = (v, rest)
  readLong_writeLong : ∀ data v o, o + 8 ≤ data.length →
    u.readLong (u.writeLong data v o) o = v
  writeLong_elsewhere : ∀ data v o k, o + 8 ≤ data.length → (k < o ∨ o + 8 ≤ k) →
    (u.writeLong data v o)[k]? = data[k]?
  writeLong_readLong : ∀ data o, o + 8 ≤ data.length →
    u.writeLong data (u.readLong data o) o = data
  sequence : ∀ data (puts : List Put), (∀ p ∈ puts, p.offset + p.size ≤ data.length) →
    puts.Pairwise Put.Disjoint → ∀ p ∈ puts, p.ReadsBack u (puts.foldl (Put.write u) data)

@[simp] theorem Put.block_fst (p : Put) : p.block.1 = p.offset := by
  cases p
  · rfl
  · rfl

@[simp] theorem Put.length_block_snd (p : Put) : p.block.2.length = p.size := by
  cases p
  · rfl
  · rfl

section

variable {f : List Byte → Nat → JInt → JInt} {data : List Byte}

theorem Put.write_eq {p : Put} (h : p.offset + p.size ≤ data.length) :
    p.write { Client.byteUtil with readIntN := f } data = overwrite data p.block.1 p.block.2 := by
  cases p with
  | int o v => exact writeInt_eq_put h v
  | long o v => exact writeLong_eq_put h v

theorem Put.readsBack_of_partOf {p : Put} (h : PartOf data p.block) :
    p.ReadsBack { Client.byteUtil with readIntN := f } data := by
  cases p with
  | int o v => exact (readInt_eq_get data o).trans (Code.get_of_partOf h)
  | long o v => exact (readLong_eq_get data o).trans (Code.get_of_partOf h)

theorem foldl_write_eq (puts : List Put) (h : ∀ p ∈ puts, p.offset + p.size ≤ data.length) :
    puts.foldl (Put.write { Client.byteUtil with readIntN := f }) data =
      overwrites data (puts.map Put.block) := by
  induction puts generalizing data with
  | nil => rfl
  | cons p puts ih =>
    have hp := h p List.mem_cons_self
    have hlen : (overwrite data p.block.1 p.block.2).length = data.length :=
      length_overwrite (by rwa [p.block_fst, p.length_block_snd])
    rw [List.foldl_cons, Put.write_eq hp,
      ih fun q hq => hlen.symm ▸ h q (List.mem_cons_of_mem p hq)]
    rfl

/-- **Writes to ranges that share no place are all read back.** -/
theorem readsBack_foldl_write {puts : List Put}
    (h : ∀ p ∈ puts, p.offset + p.size ≤ data.length) (hdis : puts.Pairwise Put.Disjoint)
    {p : Put} (hp : p ∈ puts) :
    p.ReadsBack { Client.byteUtil with readIntN := f }
      (puts.foldl (Put.write { Client.byteUtil with readIntN := f }) data) := by
  rw [foldl_write_eq puts h]
  refine Put.readsBack_of_partOf (partOf_overwrites (fun q hq => ?_) ?_ (List.mem_map_of_mem hp))
  · obtain ⟨p, hp, rfl⟩ := List.mem_map.mp hq
    rw [p.block_fst, p.length_block_snd]
    exact h p hp
  · refine List.pairwise_map.mpr (hdis.imp fun {p q} hpq => ?_)
    rwa [Apart, p.block_fst, q.block_fst, p.length_block_snd, q.length_block_snd]

/-- The laws do not depend on the method the copies differ in. -/
theorem roundTrips_readIntN : RoundTrips { Client.byteUtil with readIntN := f } where
  readInt_writeInt := readInt_writeInt
  writeInt_elsewhere _ v _ _ h hk := getElem?_writeInt h v hk
  writeInt_readInt _ _ h := writeInt_readInt h
  writeIntOut out _ v _ h := congrArg (out ++ ·) (take_drop_writeInt h v).symm
  readIntIn := readIntIn_writeIntOut
  readLong_writeLong _ v _ h := readLong_writeLong h v
  writeLong_elsewhere _ v _ _ h hk := getElem?_writeLong h v hk
  writeLong_readLong _ _ h := writeLong_readLong h
  sequence _ _ h hdis _ hp := readsBack_foldl_write h hdis hp

end

/-- **Both copies round-trip in all their forms.** -/
theorem byteUtil_roundTrips : RoundTrips Client.byteUtil ∧ RoundTrips Server.byteUtil :=
  ⟨roundTrips_readIntN, roundTrips_readIntN⟩

/-! ### The two copies compared -/

/-- The copies read the same values and leave the same arrays. -/
structure SameCodec (data : List Byte) (offset : Nat) (n : JInt) : Prop where
  readIntN : Client.byteUtil.readIntN data offset n = Server.byteUtil.readIntN data offset n
  readInt : Client.byteUtil.readInt data offset = Server.byteUtil.readInt data offset
  writeInt : ∀ v, Client.byteUtil.writeInt data v offset = Server.byteUtil.writeInt data v offset
  readLong : offset + 8 ≤ data.length →
    Client.byteUtil.readLong data offset = Server.byteUtil.readLong data offset
  writeLong : offset + 8 ≤ data.length →
    ∀ v, Client.byteUtil.writeLong data v offset = Server.byteUtil.writeLong data v offset

/-- The first `n` of the four bytes are the last `n`, where `n` is less than four. -/
def SameBytes (data : List Byte) (offset n : Nat) : Prop :=
  n < 4 → ∀ k < n, data[offset + k]? = data[offset + (4 - n) + k]?

instance (data : List Byte) (offset n : Nat) : Decidable (SameBytes data offset n) :=
  inferInstanceAs (Decidable (_ → _))

/-- The `n` bytes at a place, as the lowest of four. -/
def lowBytes (data : List Byte) (offset n : Nat) : List Byte :=
  List.replicate (4 - n) 0 ++ (List.range n).map fun k => data.getD (offset + k) 0

theorem client_readIntN (data : List Byte) (o : Nat) {n : Nat} (h0 : 0 < n) (h4 : n < 4) :
    Client.readIntN data o n = intCode.decode (lowBytes data o n) := by
  interval_cases n
  all_goals simp [Client.readIntN, intCode, lowBytes, readInt, byteAt, List.range_succ]

/-- The server reads further behind. -/
theorem server_readIntN (data : List Byte) (o : Nat) {n : Nat} (h0 : 0 < n) (h4 : n < 4) :
    Server.readIntN data o n = Client.readIntN data (o + (4 - n)) n := by
  interval_cases n
  all_goals
    simp only [Server.readIntN, Client.readIntN, Nat.add_assoc,
      Nat.reduceAdd, Nat.reduceSub]

theorem readIntN_default (data : List Byte) (o : Nat) {n : Nat} (h : ¬ (0 < n ∧ n < 4)) :
    Client.readIntN data o n = readInt data o ∧ Server.readIntN data o n = readInt data o := by
  match n, h with
  | 0, _ => exact ⟨rfl, rfl⟩
  | 1, h | 2, h | 3, h => exact absurd (by decide) h
  | _ + 4, _ => exact ⟨rfl, rfl⟩

theorem getD_eq_iff {data : List Byte} {i j : Nat} (hi : i < data.length) (hj : j < data.length) :
    data.getD i 0 = data.getD j 0 ↔ data[i]? = data[j]? := by
  rw [List.getD_eq_getElem?_getD, List.getD_eq_getElem?_getD, List.getElem?_eq_getElem hi,
    List.getElem?_eq_getElem hj, Option.getD_some, Option.getD_some, Option.some.injEq]

/-- **Where the copies read the same value.** -/
theorem readIntN_eq_iff {data : List Byte} {o : Nat} (hroom : o + 4 ≤ data.length) (n : Nat) :
    Client.readIntN data o n = Server.readIntN data o n ↔ SameBytes data o n := by
  by_cases h : 0 < n ∧ n < 4
  · rw [server_readIntN data o h.1 h.2, client_readIntN data o h.1 h.2,
      client_readIntN data (o + (4 - n)) h.1 h.2]
    have hlen (o : Nat) : (lowBytes data o n).length = intCode.width := by
      rw [lowBytes, List.length_append, List.length_replicate, List.length_map, List.length_range]
      exact Nat.sub_add_cancel (Nat.le_of_lt h.2)
    constructor
    · intro heq _ k hk
      have hlists := List.append_cancel_left (intCode.decode_inj (hlen _) (hlen _) heq)
      exact (getD_eq_iff (by omega) (by omega)).mp
        (List.map_inj_left.mp hlists k (List.mem_range.mpr hk))
    · intro hsame
      have hlists : lowBytes data o n = lowBytes data (o + (4 - n)) n :=
        congrArg (List.replicate (4 - n) 0 ++ ·)
          (List.map_inj_left.mpr fun k hk => by
            have hk := List.mem_range.mp hk
            exact (getD_eq_iff (by omega) (by omega)).mpr (hsame h.2 k hk))
      rw [hlists]
  · obtain ⟨hc, hs⟩ := readIntN_default data o h
    refine iff_of_true (hc.trans hs.symm) fun h4 k hk => absurd ⟨?_, h4⟩ h
    exact Nat.zero_lt_of_lt hk

theorem sameCodec_iff {data : List Byte} {o : Nat} (h : o + 4 ≤ data.length) (n : JInt) :
    SameCodec data o n ↔ SameBytes data o n.toNat :=
  ⟨fun hsame => (readIntN_eq_iff h n.toNat).mp hsame.readIntN, fun hbytes =>
    ⟨(readIntN_eq_iff h n.toNat).mpr hbytes, rfl, fun _ => rfl, fun _ => rfl, fun _ _ => rfl⟩⟩

/-- A frame header: the count, then the flag over its first byte. -/
def header (u : ByteUtil) (data : List Byte) (count : JInt) (flag : Byte) : List Byte :=
  (u.writeInt data count 0).set 0 flag

section

variable {data : List Byte} {count : JInt}

theorem header_eq (h : 4 ≤ data.length) (count : JInt) (flag : Byte) :
    (writeInt data count 0).set 0 flag = flag :: ((intBytes count).tail ++ data.drop 4) := by
  have hput : writeInt data count 0 = intBytes count ++ data.drop 4 :=
    @writeInt_eq_put data 0 h count
  rw [hput, intBytes, List.cons_append, List.set_cons_zero, List.tail_cons]

/-- The server takes the byte behind the header for the lowest one. -/
theorem sameBytes_header (bytes : List Byte) (hbytes : bytes.length = 3) (flag behind : Byte)
    (rest : List Byte) :
    SameBytes (flag :: (bytes ++ behind :: rest)) 1 3 ↔ bytes = List.replicate 3 behind := by
  match bytes, hbytes with
  | [b1, b2, b3], _ =>
    simp only [List.replicate, List.cons.injEq, and_true]
    constructor
    · intro hsame
      have h1 : some b1 = some b2 := hsame (by decide) 0 (by decide)
      have h2 : some b2 = some b3 := hsame (by decide) 1 (by decide)
      have h3 : some b3 = some behind := hsame (by decide) 2 (by decide)
      simp only [Option.some.injEq] at h1 h2 h3
      exact ⟨h1.trans (h2.trans h3), h2.trans h3, h3⟩
    · rintro ⟨rfl, rfl, rfl⟩ _ k hk
      interval_cases k
      all_goals rfl

theorem readIntN_header (hlen : 1 + 4 ≤ data.length) (hcount : count.toNat < 2 ^ 24)
    (flag : Byte) :
    Client.readIntN ((writeInt data count 0).set 0 flag) 1 3 = count ∧
      (Server.readIntN ((writeInt data count 0).set 0 flag) 1 3 = count ↔
        (intBytes count).tail = List.replicate 3 (data.getD 4 0)) := by
  have hroom : 1 + 4 ≤ ((writeInt data count 0).set 0 flag).length := by
    rwa [List.length_set, length_writeInt]
  have hagree := readIntN_eq_iff hroom 3
  obtain ⟨behind, rest, hbehind⟩ : ∃ b rest, data.drop 4 = b :: rest :=
    List.exists_cons_of_length_pos (by rw [List.length_drop]; omega)
  have hget : data.getD 4 0 = behind := by
    rw [List.getD_eq_getElem?_getD, ← Nat.add_zero 4, ← List.getElem?_drop, hbehind]
    rfl
  rw [header_eq (by omega), hbehind] at hagree ⊢
  have hclient := readIntN_three hcount flag (behind :: rest)
  rw [hclient, sameBytes_header _ rfl] at hagree
  exact ⟨hclient, eq_comm.trans (hget ▸ hagree)⟩

end

/-- **The copies are one codec exactly where** the first `n` of four bytes are the last `n`, or
`n` is no count of fewer bytes; and only the client's copy reads back the count of every
frame header, the server's where the bytes of the count are those behind it. -/
theorem sameCodec_iff_sameBytes (data : List Byte) (offset : Nat) (n : JInt)
    (h : offset + 4 ≤ data.length) :
    (SameCodec data offset n ↔ SameBytes data offset n.toNat) ∧
      ∀ (count : JInt) (flag : Byte), 1 + 4 ≤ data.length → count.toNat < 2 ^ 24 →
        Client.byteUtil.readIntN (header Client.byteUtil data count flag) 1 3 = count ∧
          (Server.byteUtil.readIntN (header Server.byteUtil data count flag) 1 3 = count ↔
            (intBytes count).tail = List.replicate 3 (data.getD 4 0)) :=
  ⟨sameCodec_iff h n, fun _ flag hlen hcount => readIntN_header hlen hcount flag⟩

/-- A header of five bytes. -/
theorem sameCodec_iff_sameBytes_four :
    0 + 4 ≤ (List.replicate 5 (0 : Byte)).length ∧ SameCodec (List.replicate 5 0) 0 4 :=
  ⟨by decide, (sameCodec_iff_sameBytes (List.replicate 5 0) 0 4 (by decide)).1.mpr (by decide)⟩

/-- **A frame header with the count `1`** is read as `256` by the server's copy. -/
theorem copies_differ :
    (¬ ∀ data offset n, offset + 4 ≤ data.length → SameCodec data offset n) ∧
      ¬ ∀ (data : List Byte) (count : JInt) (flag : Byte), 1 + 4 ≤ data.length →
        count.toNat < 2 ^ 24 →
        Server.byteUtil.readIntN (header Server.byteUtil data count flag) 1 3 = count := by
  constructor
  · intro hclaim
    exact absurd (hclaim [1, 0, 0, 0] 0 1 (by decide)).readIntN (by decide)
  · intro hclaim
    exact absurd (hclaim (List.replicate 5 0) 1 0 (by decide) (by decide)) (by decide)

end MikaAudio
