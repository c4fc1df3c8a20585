import MikaAudio.Protocol

/-!
# What the server's threads share

Every connection has a thread of its own, and all of them use one `FrameModule`
(its fields, two of them static), the static `InputThread` behind every
`InputModule`, and `ModuleManager.connections`.  Objects that are created for a
connection carry its number as `owner`; that number is all that tells two of
them apart.
-/

namespace MikaAudio.Server

open Thread (Byte)

/-- What the environment answers: the port of a new `DatagramSocket(0)` and
whether sockets can be made, the display's metrics, the value of native `init`
and whether `Bitmap.createBitmap` gives a bitmap of that size. -/
structure Env where
  port : JInt
  sockets : Bool
  width : JInt
  height : JInt
  screen : Int
  bitmap : Bool
  deriving DecidableEq

/-- What the handler of the static `InputThread` is sent: a key code, or the
bytes whose decoding is the text. -/
inductive InputEvent
  | key (key : JInt)
  | text (raw : List Byte)
  deriving DecidableEq

/-- The key of a key event. -/
def InputEvent.key? : InputEvent → Option JInt
  | .key k => some k
  | .text _ => none

/-- A `DatagramSocket`. -/
structure Socket where
  owner : Nat
  port : JInt
  deriving DecidableEq

/-- A `FrameTask`, with the target port of its packet. -/
structure FrameTask where
  owner : Nat
  screenPtr : Int
  framePort : JInt
  screenWidth : JInt
  screenHeight : JInt
  task : Task := {}
  deriving DecidableEq

/-- An `InputTask`; packets and input modules are named by their owner. -/
structure InputTask where
  owner : Nat
  socket : Option Socket
  packet : Option Nat
  inputModule : Option Nat
  screenWidth : JInt
  screenHeight : JInt
  task : Task := {}
  deriving DecidableEq

/-- The fields of `FrameModule`, and every task it has created. -/
structure FrameModule where
  connected : Bool := false
  instancePtr : Int := -1
  screenHeight : JInt := 0
  screenWidth : JInt := 0
  inputPacket : Option Nat := none
  inputSocket : Option Socket := none
  frameTask : Option Nat := none
  inputModule : Option Nat := none
  inputTask : Option Nat := none
  frameTasks : List FrameTask := []
  inputTasks : List InputTask := []
  deriving DecidableEq

/-- Apply an operation to the task in the field `frameTask`. -/
def FrameModule.onFrameTask (f : Task → Task) (fm : FrameModule) : FrameModule :=
  match fm.frameTask with
  | some i => { fm with frameTasks := fm.frameTasks.modify i fun t => { t with task := f t.task } }
  | none => fm

/-- Apply an operation to the task in the field `inputTask`. -/
def FrameModule.onInputTask (f : Task → Task) (fm : FrameModule) : FrameModule :=
  match fm.inputTask with
  | some i => { fm with inputTasks := fm.inputTasks.modify i fun t => { t with task := f t.task } }
  | none => fm

/-- `FrameModule.stop`. -/
def FrameModule.stop (fm : FrameModule) : FrameModule :=
  if fm.connected then { fm with connected := false, instancePtr := -1 } else fm

/-- The task in the field `frameTask`. -/
def FrameModule.currentTask (fm : FrameModule) : Option FrameTask :=
  fm.frameTask.bind fun i => fm.frameTasks[i]?

/-- The task in the field `inputTask`. -/
def FrameModule.currentInput (fm : FrameModule) : Option InputTask :=
  fm.inputTask.bind fun i => fm.inputTasks[i]?

@[simp] theorem FrameModule.onFrameTask_connected (f : Task → Task) (fm : FrameModule) :
    (fm.onFrameTask f).connected = fm.connected := by
  unfold FrameModule.onFrameTask
  cases fm.frameTask
  · rfl
  · rfl

@[simp] theorem FrameModule.onInputTask_connected (f : Task → Task) (fm : FrameModule) :
    (fm.onInputTask f).connected = fm.connected := by
  unfold FrameModule.onInputTask
  cases fm.inputTask
  · rfl
  · rfl

/-- The memory of the server: `events` is everything ever sent to the
`InputThread`'s handler, `closed` the connections whose socket is closed. -/
structure Memory where
  frame : FrameModule := {}
  events : List InputEvent := []
  connections : List Nat := []
  closed : List Nat := []
  running : Nat → Bool := fun _ => true

/-- `inputHandler.obtainMessage(..).sendToTarget()`. -/
def Memory.post (m : Memory) (ev : InputEvent) : Memory := { m with events := m.events ++ [ev] }

/-- An assignment to fields of the `FrameModule`. -/
def Memory.onFrame (m : Memory) (f : FrameModule → FrameModule) : Memory :=
  { m with frame := f m.frame }

/-- The key codes that were dispatched, in order. -/
def Memory.keys (m : Memory) : List JInt := m.events.filterMap InputEvent.key?

@[simp] theorem Memory.keys_post_key (m : Memory) (k : JInt) :
    (m.post (.key k)).keys = m.keys ++ [k] := by
  simp [Memory.keys, Memory.post, InputEvent.key?]

end MikaAudio.Server
