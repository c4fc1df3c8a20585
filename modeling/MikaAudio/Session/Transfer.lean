import MikaAudio.Server.FrameTask
import MikaAudio.Client.FrameTask
import Mathlib.Data.List.Chain

/-!
# A frame on its way through the packets

`fragments` says how a frame is cut up: where each piece belongs, and which is the
last.  The packets the server sends are these fragments encoded (`send_eq`), whatever
the array of the packet held before, and a fragment that comes in is put where it
belongs (`receive_encode`).  The client's buffer then fills from the front, and holds
the frame when the last fragment is in.
-/

namespace MikaAudio

open Thread (Byte)
open Server.FrameTask (fill length send threshold)

/-! ### Fragments -/

/-- A piece of a frame. -/
structure Fragment where
  offset : Nat
  last : Bool
  payload : List Byte
  deriving DecidableEq

/-- The packet of a fragment: the flag, the low three bytes of the offset, the data. -/
def Fragment.encode (f : Fragment) : List Byte :=
  (if f.last then 0x01 else 0x00) :: ((intBytes (BitVec.ofNat 32 f.offset)).tail ++ f.payload)

/-- The piece of the frame at an offset. -/
def fragment (bitmap : List Byte) (count : Nat) : Fragment where
  offset := count
  last := count + length bitmap count = bitmap.length
  payload := (bitmap.drop count).take (length bitmap count)

/-- The pieces of the frame from an offset on. -/
def fragments (bitmap : List Byte) (count : Nat) : List Fragment :=
  if count < bitmap.length then
    fragment bitmap count :: fragments bitmap (count + length bitmap count)
  else []
termination_by bitmap.length - count
decreasing_by
  have := Server.FrameTask.length_pos ‹count < bitmap.length›
  omega

section Lengths

variable {bitmap : List Byte} {count : Nat}

theorem length_le (bitmap : List Byte) (count : Nat) : length bitmap count ≤ sizeData := by
  unfold length
  split_ifs
  · omega
  · omega

theorem count_add_length_le (h : count ≤ bitmap.length) :
    count + length bitmap count ≤ bitmap.length := by
  unfold length
  split_ifs
  · omega
  · omega

@[simp] theorem length_fragment (h : count ≤ bitmap.length) :
    (fragment bitmap count).payload.length = length bitmap count := by
  have := count_add_length_le h
  simp only [fragment, List.length_take, List.length_drop]
  omega

theorem length_encode (f : Fragment) :
    f.encode.length = f.payload.length + sizeFrameHeader := by
  simp [Fragment.encode, intBytes, sizeFrameHeader]

end Lengths

/-! ### The server sends the fragments -/

theorem fill_eq (bitmap : List Byte) (count : Nat) : ∀ (n index : Nat) (data : List Byte),
    count + index + n ≤ bitmap.length → sizeFrameHeader + index + n ≤ data.length →
    fill bitmap count n index data = some
      (Buffer.overwrite data (sizeFrameHeader + index) ((bitmap.drop (count + index)).take n)) := by
  intro n
  induction n with
  | zero => intro index data _ _; simp [fill]
  | succ n ih =>
    intro index data hb hd
    have hlt : count + index < bitmap.length := by omega
    have hdata : sizeFrameHeader + index < data.length := by omega
    rw [fill, List.getElem?_eq_getElem hlt, Option.bind_eq_bind, Option.bind_some, Buffer.write,
      if_pos hdata, Option.bind_eq_bind, Option.bind_some,
      ih _ _ (by omega) (by rw [List.length_set]; omega), Buffer.set_eq_overwrite hdata]
    have hchunk : (bitmap.drop (count + index)).take (n + 1) =
        [bitmap[count + index]] ++ (bitmap.drop (count + (index + 1))).take n := by
      rw [List.drop_eq_getElem_cons hlt, List.take_succ_cons]
      rfl
    rw [hchunk, ← Buffer.overwrite_overwrite (Nat.le_of_lt hdata)]
    rfl

theorem writeInt_zero {data : List Byte} (v : JInt) (h : sizeFrameHeader ≤ data.length) :
    writeInt data v 0 = intBytes v ++ data.drop sizeFrameHeader := by
  obtain ⟨a, b, c, d, rest, rfl⟩ : ∃ a b c d rest, data = a :: b :: c :: d :: rest := by
    match data, h with
    | a :: b :: c :: d :: rest, _ => exact ⟨a, b, c, d, rest, rfl⟩
  rfl

theorem packet_eq {bitmap : List Byte} {count : Nat} {data : List Byte}
    (hcount : count < bitmap.length) (hdata : data.length = sizeFrameHeader + sizeData) :
    ∃ data', fill bitmap count (length bitmap count) 0
        (writeInt data (BitVec.ofNat 32 count) 0) = some data' ∧
      data'.length = sizeFrameHeader + sizeData ∧
      (data'.set 0 (if count + length bitmap count = bitmap.length then 0x01 else 0x00)).take
        (length bitmap count + sizeFrameHeader) = (fragment bitmap count).encode := by
  have hle := length_le bitmap count
  have hend := count_add_length_le (Nat.le_of_lt hcount)
  have hpayload := length_fragment (Nat.le_of_lt hcount)
  have hheader : sizeFrameHeader ≤ (writeInt data (BitVec.ofNat 32 count) 0).length := by
    rw [length_writeInt]
    omega
  have hfill := fill_eq bitmap count (length bitmap count) 0
    (writeInt data (BitVec.ofNat 32 count) 0) (by omega) (by rw [length_writeInt]; omega)
  rw [Nat.add_zero, Nat.add_zero] at hfill
  refine ⟨_, hfill, ?_, ?_⟩
  · show (Buffer.overwrite _ _ (fragment bitmap count).payload).length = _
    rw [Buffer.length_overwrite (by rw [hpayload, length_writeInt]; omega), length_writeInt, hdata]
  · show ((Buffer.overwrite _ _ (fragment bitmap count).payload).set 0 _).take _ = _
    rw [List.take_set, ← hpayload, Nat.add_comm, Buffer.take_overwrite hheader,
      writeInt_zero _ (by omega),
      List.take_left' (show (intBytes _).length = sizeFrameHeader from rfl), hpayload]
    simp only [Fragment.encode, fragment, intBytes, decide_eq_true_eq]
    rfl

theorem send_eq (bitmap : List Byte) (count : Nat) : ∀ data : List Byte,
    data.length = sizeFrameHeader + sizeData →
    ∃ data', send bitmap count data = some ((fragments bitmap count).map Fragment.encode, data') ∧
      data'.length = sizeFrameHeader + sizeData := by
  induction count using fragments.induct bitmap with
  | case1 count hlt ih =>
    intro data hdata
    obtain ⟨data₁, hfill, hlen, hpacket⟩ := packet_eq hlt hdata
    obtain ⟨data₂, hsend, hlen₂⟩ := ih (data₁.set 0
      (if count + length bitmap count = bitmap.length then 0x01 else 0x00))
      (by rw [List.length_set, hlen])
    refine ⟨data₂, ?_, hlen₂⟩
    rw [send, if_pos hlt, fragments, if_pos hlt]
    simp only [hfill, Option.bind_eq_bind, Option.bind_some, hsend, hpacket, List.map_cons]
    rfl
  | case2 count hlt =>
    intro data hdata
    exact ⟨data, by rw [send, if_neg hlt, fragments, if_neg hlt]; rfl, hdata⟩

/-! ### The client puts a fragment where it belongs -/

/-- The header names the offset, as long as it has three bytes. -/
theorem readIntN_encode {f : Fragment} (hoffset : f.offset < 2 ^ 24) (rest : List Byte) :
    Client.readIntN (f.encode ++ rest) 1 3 = BitVec.ofNat 32 f.offset := by
  refine readIntN_three ?_ _ (f.payload ++ rest)
  rw [BitVec.toNat_ofNat, Nat.mod_eq_of_lt (by omega)]
  exact hoffset

theorem readByte_encode (f : Fragment) (rest : List Byte) :
    readByte (f.encode ++ rest) 0 = 1 ↔ f.last = true := by
  cases h : f.last
  · simp [readByte, byteAt, Fragment.encode, h]
  · simp [readByte, byteAt, Fragment.encode, h]

theorem drop_encode (f : Fragment) (rest : List Byte) :
    (f.encode ++ rest).drop sizeFrameHeader = f.payload ++ rest := rfl

section Receive

open Client (FrameTask)

variable {task : FrameTask} {f : Fragment}

/-- What a fragment does to the client. -/
def Fragment.received (f : Fragment) (task : FrameTask) : FrameTask where
  data := f.encode ++ task.data.drop f.encode.length
  buffer := Buffer.overwrite task.buffer f.offset f.payload
  ready :=
    if f.last then
      task.ready ++
        [(f.offset + f.payload.length, Buffer.overwrite task.buffer f.offset f.payload)]
    else task.ready

theorem receive_encode (hdata : task.data.length = sizeFrameHeader + sizeData)
    (hpayload : f.payload.length ≤ sizeData) (hoffset : f.offset < 2 ^ 24)
    (hbuffer : f.offset + f.payload.length ≤ task.buffer.length) :
    task.receive f.encode = some (f.received task) := by
  have hlen := length_encode f
  have htake : f.encode.take (sizeData + sizeFrameHeader) = f.encode :=
    List.take_of_length_le (by omega)
  have hover : Buffer.overwrite task.data 0 f.encode =
      f.encode ++ task.data.drop f.encode.length := by
    simp [Buffer.overwrite]
  have hindex : (BitVec.ofNat 32 f.offset).toNat = f.offset := by
    rw [BitVec.toNat_ofNat, Nat.mod_eq_of_lt (by omega)]
  have hcopy : Buffer.copy (f.encode ++ task.data.drop f.encode.length) sizeFrameHeader task.buffer
      f.offset (f.encode.length - sizeFrameHeader) =
        some (Buffer.overwrite task.buffer f.offset f.payload) := by
    rw [Buffer.copy, if_pos, drop_encode, hlen, Nat.add_sub_cancel, List.take_left]
    rw [List.length_append, List.length_drop]
    omega
  have hnot : ¬ f.encode.length < sizeFrameHeader := by omega
  have hend : f.offset + f.encode.length - sizeFrameHeader = f.offset + f.payload.length := by
    omega
  simp only [FrameTask.receive, htake, hover, readIntN_encode hoffset, hindex, hnot, if_false,
    hcopy, Option.bind_eq_bind, Option.bind_some, readByte_encode, hend]
  rfl

/-- **The fragments of a frame fill the buffer from the front**, and with the last of them
the frame is ready. -/
theorem run_fragments (bitmap : List Byte) (count : Nat) : ∀ task : FrameTask,
    task.data.length = sizeFrameHeader + sizeData → count < bitmap.length →
    bitmap.length ≤ task.buffer.length → bitmap.length ≤ 2 ^ 24 →
    task.buffer.take count = bitmap.take count →
    ∃ task' : FrameTask, task.run ((fragments bitmap count).map Fragment.encode) = some task' ∧
      task'.data.length = sizeFrameHeader + sizeData ∧
      task'.buffer.length = task.buffer.length ∧
      task'.ready = task.ready ++ [(bitmap.length, task'.buffer)] ∧
      task'.buffer.take bitmap.length = bitmap := by
  induction count using fragments.induct bitmap with
  | case2 count hlt => intro task _ hlt' _ _ _; exact absurd hlt' hlt
  | case1 count hlt ih =>
    intro task hdata _ hbuffer hsize htake
    have hend := count_add_length_le (Nat.le_of_lt hlt)
    have hpayload := length_fragment (Nat.le_of_lt hlt)
    have hle := length_le bitmap count
    have hencode := length_encode (fragment bitmap count)
    have hfits : (fragment bitmap count).offset + (fragment bitmap count).payload.length ≤
        task.buffer.length := by
      rw [hpayload]
      exact Nat.le_trans hend hbuffer
    have hstep := receive_encode hdata (hpayload ▸ hle)
      (show (fragment bitmap count).offset < 2 ^ 24 from Nat.lt_of_lt_of_le hlt hsize) hfits
    have hdata' : ((fragment bitmap count).received task).data.length =
        sizeFrameHeader + sizeData := by
      simp only [Fragment.received, List.length_append, List.length_drop]
      omega
    have hlen' : ((fragment bitmap count).received task).buffer.length = task.buffer.length :=
      Buffer.length_overwrite hfits
    -- the buffer agrees with the frame up to the end of this fragment
    have htake' : ((fragment bitmap count).received task).buffer.take
        (count + length bitmap count) = bitmap.take (count + length bitmap count) := by
      have hover : (Buffer.overwrite task.buffer count (fragment bitmap count).payload).take
          (count + (fragment bitmap count).payload.length) =
            task.buffer.take count ++ (fragment bitmap count).payload :=
        Buffer.take_overwrite (by omega)
      rw [hpayload, htake] at hover
      exact hover.trans (List.take_add.symm)
    rw [fragments, if_pos hlt, List.map_cons, FrameTask.run_cons, hstep]
    by_cases hlast : count + length bitmap count = bitmap.length
    · refine ⟨(fragment bitmap count).received task, ?_, hdata', hlen', ?_, ?_⟩
      · rw [fragments, if_neg (by omega)]
        rfl
      · show (if (fragment bitmap count).last then _ else _) = _
        rw [if_pos (by simpa [fragment] using hlast), hpayload]
        exact congrArg (fun n => task.ready ++ [(n, _)]) hlast
      · rw [hlast] at htake'
        rw [htake', List.take_length]
    · obtain ⟨task', hrun, hd, hl, hready, htk⟩ :=
        ih _ hdata' (by omega) (by rw [hlen']; exact hbuffer) hsize htake'
      refine ⟨task', hrun, hd, hl.trans hlen', ?_, htk⟩
      rw [hready]
      show (if (fragment bitmap count).last then _ else _) ++ _ = _
      rw [if_neg (by simpa [fragment] using hlast)]

/-! ### All frames -/

theorem length_fragments (bitmap : List Byte) (count : Nat) :
    ∀ f ∈ fragments bitmap count, f.encode.length ≤ sizeData + sizeFrameHeader := by
  induction count using fragments.induct bitmap with
  | case1 count hlt ih =>
    intro f hf
    rw [fragments, if_pos hlt, List.mem_cons] at hf
    rcases hf with rfl | hf
    · have hle := length_le bitmap count
      rw [length_encode, length_fragment (Nat.le_of_lt hlt)]
      omega
    · exact ih f hf
  | case2 count hlt =>
    intro f hf
    rw [fragments, if_neg hlt] at hf
    cases hf

theorem run_transfer : ∀ (frames : List (List Byte)) (diff : Nat) (data : List Byte)
    (task : FrameTask), data.length = sizeFrameHeader + sizeData →
    task.data.length = sizeFrameHeader + sizeData →
    (∀ b ∈ frames, threshold ≤ b.length ∧ b.length ≤ task.buffer.length ∧ b.length ≤ 2 ^ 24) →
    (∀ b ∈ frames.head?, diff ≠ b.length) → frames.IsChain (fun a b => a.length ≠ b.length) →
    ∃ (packets : List (List Byte)) (task' : FrameTask) (ready : List (Nat × List Byte)),
      Server.FrameTask.run frames diff data = some packets ∧
      (∀ p ∈ packets, p.length ≤ sizeData + sizeFrameHeader) ∧
      task.run packets = some task' ∧ task'.ready = task.ready ++ ready ∧
      ready.map (fun r => (r.1, r.2.take r.1)) = frames.map (fun b => (b.length, b)) := by
  intro frames
  induction frames with
  | nil =>
    intro diff data task _ _ _ _ _
    exact ⟨[], task, [], rfl, nofun, rfl, (List.append_nil _).symm, rfl⟩
  | cons b frames ih =>
    intro diff data task hdata htask hall hhead hchain
    obtain ⟨hthreshold, hbuffer, hsize⟩ := hall b List.mem_cons_self
    obtain ⟨data', hsend, hdata'⟩ := send_eq b 0 data hdata
    have hpos : 0 < b.length := Nat.lt_of_lt_of_le (by decide) hthreshold
    obtain ⟨task₁, hrun₁, hdata₁, hbuffer₁, hready₁, htake₁⟩ :=
      run_fragments b 0 task htask hpos hbuffer hsize rfl
    obtain ⟨hnext, hchain⟩ := List.isChain_cons.mp hchain
    obtain ⟨packets, task', ready, hrun, hpackets, hrun', hready, hmap⟩ :=
      ih b.length data' task₁ hdata' hdata₁
        (fun b' hb' => by rw [hbuffer₁]; exact hall b' (List.mem_cons_of_mem b hb')) hnext hchain
    refine ⟨(fragments b 0).map Fragment.encode ++ packets, task',
      (b.length, task₁.buffer) :: ready, ?_, ?_, ?_, ?_, ?_⟩
    · rw [Server.FrameTask.run, if_pos ⟨hhead b rfl, hthreshold⟩, hsend]
      simp only [Option.bind_eq_bind, Option.bind_some, hrun]
      rfl
    · intro p hp
      rcases List.mem_append.mp hp with hp | hp
      · obtain ⟨f, hf, rfl⟩ := List.mem_map.mp hp
        exact length_fragments b 0 f hf
      · exact hpackets p hp
    · rw [FrameTask.run_append, hrun₁]
      exact hrun'
    · rw [hready, hready₁, List.append_assoc]
      rfl
    · rw [List.map_cons, List.map_cons, htake₁, hmap]

theorem length_buffer_new {width height : JInt} (data : List Byte)
    (hsize : 2 * width.toNat * height.toNat < 2 ^ 31) :
    (FrameTask.new data width height).buffer.length = 2 * width.toNat * height.toNat := by
  have hcomm : width.toNat * height.toNat * 2 = 2 * width.toNat * height.toNat := by
    rw [Nat.mul_comm, Nat.mul_assoc]
  rw [FrameTask.new, List.length_replicate, BitVec.toNat_mul, BitVec.toNat_mul,
    Nat.mod_eq_of_lt (a := width.toNat * height.toNat) (by omega)]
  exact (Nat.mod_eq_of_lt (show width.toNat * height.toNat * 2 < 2 ^ 32 by omega)).trans hcomm

/-- **Frame transfer is exact.**  Where every frame sent fits the client's buffer and three
bytes hold its offsets, each frame makes the client call `frameView.ready` once, with its
length, when the buffer begins with it; no packet is too long and no copy leaves the
buffer. -/
theorem transfer_exact (width height : JInt) {frames : List (List Byte)} {data data' : List Byte}
    (hsize : 2 * width.toNat * height.toNat < 2 ^ 31)
    (hframes : ∀ b ∈ frames, threshold ≤ b.length ∧
      b.length ≤ min (2 * width.toNat * height.toNat) (2 ^ 24))
    (hdiff : frames.IsChain (fun a b => a.length ≠ b.length))
    (hdata : data.length = sizeFrameHeader + sizeData)
    (hdata' : data'.length = sizeFrameHeader + sizeData) :
    ∃ (packets : List (List Byte)) (task : FrameTask),
      Server.FrameTask.run frames 0 data = some packets ∧
      (∀ p ∈ packets, p.length ≤ sizeData + sizeFrameHeader) ∧
      (FrameTask.new data' width height).run packets = some task ∧
      task.ready.map (fun r => (r.1, r.2.take r.1)) = frames.map (fun b => (b.length, b)) := by
  have hbuffer := length_buffer_new data' hsize
  obtain ⟨packets, task, ready, hrun, hpackets, hrun', hready, hmap⟩ :=
    run_transfer frames 0 data (.new data' width height) hdata hdata'
      (fun b hb => by
        obtain ⟨hthreshold, hle⟩ := hframes b hb
        rw [hbuffer]
        exact ⟨hthreshold, Nat.le_trans hle (Nat.min_le_left _ _),
          Nat.le_trans hle (Nat.min_le_right _ _)⟩)
      (fun b hb => by
        have hthreshold := (hframes b (List.mem_of_mem_head? hb)).1
        have : 0 < b.length := Nat.lt_of_lt_of_le (by decide) hthreshold
        omega) hdiff
  exact ⟨packets, task, hrun, hpackets, hrun', by rw [hready]; exact hmap⟩

/-- Two frames on a screen of 100 by 100. -/
theorem transfer_exact_two :
    let first : List Byte := List.replicate 10000 7
    let second : List Byte := List.replicate 10001 8
    let data : List Byte := List.replicate (sizeFrameHeader + sizeData) 0
    ∃ (packets : List (List Byte)) (task : FrameTask),
      Server.FrameTask.run [first, second] 0 data = some packets ∧
      (FrameTask.new data 100 100).run packets = some task ∧
      task.ready.map (fun r => (r.1, r.2.take r.1)) = [(10000, first), (10001, second)] := by
  intro first second data
  have hfirst : first.length = 10000 := List.length_replicate ..
  have hsecond : second.length = 10001 := List.length_replicate ..
  have hdata : data.length = sizeFrameHeader + sizeData := List.length_replicate ..
  clear_value first second data
  have hframes : ∀ b ∈ [first, second], threshold ≤ b.length ∧
      b.length ≤ min (2 * (100 : JInt).toNat * (100 : JInt).toNat) (2 ^ 24) := by
    intro b hb
    rcases List.mem_pair.mp hb with rfl | rfl
    · rw [hfirst]
      decide
    · rw [hsecond]
      decide
  obtain ⟨packets, task, hrun, _, hrun', hmap⟩ :=
    transfer_exact 100 100 (by decide) hframes
      (by simp [hfirst, hsecond]) hdata hdata
  refine ⟨packets, task, hrun, hrun', ?_⟩
  rw [hmap, List.map_cons, List.map_cons, List.map_nil, hfirst, hsecond]

end Receive

end MikaAudio
