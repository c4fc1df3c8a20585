import MikaAudio.Protocol
import MikaAudio.Lib.Buffer

/-!
# The server's `FrameTask.run`

What the task does with the frames `frame.compress` gives it: a frame is skipped if it
is short or as long as the one before, and else cut into packets.  A packet is a
header of four bytes, the offset of its data in the frame with `0x01` over the first
byte if it is the last, and at most `SIZE_DATA` bytes.

The array `data` of the packet is used for all of them and never cleared.  An index
out of bounds is `none`.
-/

namespace MikaAudio.Server.FrameTask

open Thread (Byte)

/-- `THRESHOLD`. -/
def threshold : Nat := 10000

/-- `for (..; index < length; index++) data[SIZE_FRAME_HEADER + index] = bitmap[count + index]`,
with `n` rounds to go. -/
def fill (bitmap : List Byte) (count : Nat) : Nat → Nat → List Byte → Option (List Byte)
  | 0, _, data => some data
  | n + 1, index, data => do
    let b ← bitmap[count + index]?
    let data ← Buffer.write data (sizeFrameHeader + index) b
    fill bitmap count n (index + 1) data

/-- `length`: the bytes of the frame that go into the next packet. -/
def length (bitmap : List Byte) (count : Nat) : Nat :=
  if count + sizeData > bitmap.length then bitmap.length - count else sizeData

theorem length_pos {bitmap : List Byte} {count : Nat} (h : count < bitmap.length) :
    0 < length bitmap count := by
  unfold length
  split_ifs
  · omega
  · decide

/-- `while (count < bitmap.length)`: the packets sent, and what is in `data` after
them. -/
def send (bitmap : List Byte) (count : Nat) (data : List Byte) :
    Option (List (List Byte) × List Byte) :=
  if count < bitmap.length then do
    let data := writeInt data (BitVec.ofNat 32 count) 0
    let index := length bitmap count
    let data ← fill bitmap count index 0 data
    let data := data.set 0 (if count + index = bitmap.length then 0x01 else 0x00)
    let rest ← send bitmap (count + index) data
    return (data.take (index + sizeFrameHeader) :: rest.1, rest.2)
  else some ([], data)
termination_by bitmap.length - count
decreasing_by
  have := length_pos ‹count < bitmap.length›
  omega

/-- The packets sent for a list of compressed frames; `diff` is the length of the frame
sent last. -/
def run : List (List Byte) → Nat → List Byte → Option (List (List Byte))
  | [], _, _ => some []
  | bitmap :: bitmaps, diff, data =>
    if diff ≠ bitmap.length ∧ threshold ≤ bitmap.length then do
      let (packets, data) ← send bitmap 0 data
      let rest ← run bitmaps bitmap.length data
      return packets ++ rest
    else run bitmaps diff data

/-- What the task carries from one frame to the next, and the packets it has sent.  The
program does not keep these. -/
structure State where
  diff : Nat := 0
  data : List Byte
  packets : List (List Byte) := []

/-- One round of `while (running)` in which `updateFrame` gives `0`. -/
def handle (s : State) (bitmap : List Byte) : Option State :=
  if s.diff ≠ bitmap.length ∧ threshold ≤ bitmap.length then do
    let (packets, data) ← send bitmap 0 s.data
    return { diff := bitmap.length, data, packets := s.packets ++ packets }
  else some s

theorem rounds_eq_run : ∀ (frames : List (List Byte)) (s : State),
    (frames.foldlM handle s).map State.packets =
      (run frames s.diff s.data).map (s.packets ++ ·) := by
  intro frames
  induction frames with
  | nil => intro s; simp [run]
  | cons b frames ih =>
    intro s
    rw [List.foldlM_cons, handle, run]
    split_ifs
    · cases send b 0 s.data with
      | none => rfl
      | some r =>
        have hih := ih
          { diff := b.length, data := r.2, packets := s.packets ++ r.1 }
        simp only [Option.bind_eq_bind, Option.bind_some, Option.pure_def] at hih ⊢
        rw [hih]
        cases run frames b.length r.2
        · simp
        · simp
    · exact ih s

end MikaAudio.Server.FrameTask
