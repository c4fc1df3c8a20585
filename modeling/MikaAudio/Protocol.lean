import MikaAudio.ByteUtil

/-!
# The bytes both ends agree on, and the tasks both ends start

`ModuleManager`, `InputModule` and `FrameModule` exist once on the client and
once on the server, and each pair declares the same constants; they are defined
here once.  `Task` is what the three `Runnable`s with a `volatile boolean
running` have in common.
-/

namespace MikaAudio

open Thread (Byte)

/-! ### `ModuleManager` -/

/-- `ModuleManager.ACK`. -/
def ack : Byte := 0xFF

/-- `ModuleManager.REJECT`. -/
def reject : Byte := 0xFE

/-- `ModuleManager.MODULE_EXIT`. -/
def moduleExit : Byte := 0x00

/-- `ModuleManager.MODULE_INPUT`. -/
def moduleInput : Byte := 0x01

/-- `ModuleManager.MODULE_FRAME`. -/
def moduleFrame : Byte := 0x02

/-- The modules a client is in or asks for. -/
inductive Module
  | exit
  | input
  | frame
  deriving DecidableEq

/-! ### `InputModule` -/

/-- `InputModule.MODE_EXIT`. -/
def modeExit : Byte := 0x00

/-- `InputModule.MODE_KEY`. -/
def modeKey : Byte := 0x01

/-- `InputModule.MODE_TEXT`. -/
def modeText : Byte := 0x02

/-! ### `FrameModule` -/

/-- `SIZE_FRAME_HEADER`. -/
def sizeFrameHeader : Nat := 4

/-- `SIZE_DATA`: a packet less the IP, UDP and frame headers. -/
def sizeData : Nat := 1500 - 20 - 8 - sizeFrameHeader

/-- The ports a `DatagramPacket` accepts: `0..65535`. -/
def validPort (port : JInt) : Bool := decide (port.toNat ≤ 65535)

/-! ### Tasks with a `running` flag

`run()` first sets the flag, then loops while it is set; `stop()` clears it.  A
thread that was started but has not come to `run()` yet is pending: it will set
the flag whatever happened before. -/

/-- A `Runnable` with the number of its threads that have not begun `run()`. -/
structure Task where
  pending : Nat := 0
  running : Bool := false
  deriving DecidableEq

/-- `new Thread(task).start()`. -/
def Task.start (t : Task) : Task := { t with pending := t.pending + 1 }

/-- A started thread comes to `run()`, which sets the flag. -/
def Task.begin (t : Task) : Option Task :=
  if t.pending = 0 then none else some ⟨t.pending - 1, true⟩

/-- `stop()`. -/
def Task.stop (t : Task) : Task := { t with running := false }

/-- The task runs: its loop goes on, or is still to begin. -/
def Task.isRunning (t : Task) : Bool := decide (0 < t.pending) || t.running

@[simp] theorem Task.isRunning_start (t : Task) : t.start.isRunning = true := by
  simp [Task.isRunning, Task.start]

theorem Task.isRunning_begin {t t' : Task} (h : t.begin = some t') : t'.isRunning = true := by
  unfold Task.begin at h
  split at h
  · cases h
  · cases h; simp [Task.isRunning]

theorem Task.isRunning_of_begin {t t' : Task} (h : t.begin = some t') : t.isRunning = true := by
  unfold Task.begin at h
  split at h
  · cases h
  · simp [Task.isRunning, Nat.pos_of_ne_zero ‹_›]

/-- **`stop()` ends a task exactly when no thread of it is still to begin.** -/
theorem Task.isRunning_stop (t : Task) : t.stop.isRunning = decide (0 < t.pending) :=
  Bool.or_false _

end MikaAudio
