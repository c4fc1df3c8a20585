import MikaAudio.Protocol

/-!
# What the client's threads share

Three threads of the client take part in the protocol: the UI thread, the
`ModuleThread` that handles `switchModule` requests, and the `InputThread` of the
`InputModule`.  They post messages to each other's handlers (first in, first
out) and all write to the one `OutputStream`.

`ModuleManager.currModule` (`uiModule`) is written by the UI thread when it
handles a `HANDLER_MODULE` message, `ModuleThread.currModule` by the module
thread itself.
-/

namespace MikaAudio.Client

open Thread (Byte)

/-- What the environment answers: the port of a new `DatagramSocket(0)`. -/
structure Env where
  port : JInt
  deriving DecidableEq

/-- The messages of the `InputThread`: `MODE_EXIT`, `MODE_KEY` with the key code,
`MODE_TEXT` with the UTF-8 bytes of the text. -/
inductive InputMsg
  | exit
  | key (key : JInt)
  | text (utf8 : List Byte)
  deriving DecidableEq

/-- The key of a key message. -/
def InputMsg.key? : InputMsg → Option JInt
  | .key k => some k
  | _ => none

/-- Which statement wrote a byte: `ModuleThread` (with the `FrameModule` calls it
makes), the `InputThread` for `exit()`, for a key or for a text, or the UI
thread.  The program never looks at it. -/
inductive Origin
  | module
  | exit
  | key
  | text
  | ui
  deriving DecidableEq

/-- A byte on its way to the server. -/
structure Sent where
  val : Byte
  origin : Origin
  deriving DecidableEq

/-- The bytes `InputThread.handleMessage` writes for one message. -/
def InputMsg.bytes : InputMsg → List Sent
  | .exit => [⟨modeExit, .exit⟩]
  | .key k => [⟨modeKey, .key⟩, ⟨k.setWidth 8, .key⟩]
  | .text utf8 => ⟨modeText, .text⟩ :: utf8.map fun b => ⟨b, .text⟩

/-- The fields of the client's `FrameModule`, with the port of its socket, the
port of the `InputThread`'s packet and the dimensions given to the `FrameView`;
`tasks` are the `FrameTask`s it has started. -/
structure FrameModule where
  running : Bool := false
  socketPort : JInt := 0
  inputPort : JInt := 0
  width : JInt := 0
  height : JInt := 0
  frameTask : Option Nat := none
  tasks : List Task := []
  deriving DecidableEq

/-- The memory of the client: the two `currModule`s, the queues of the three
handlers, and the `FrameModule`.  `posted` is everything ever posted to the
`InputThread` and `handled` the request that was taken last; nothing reads them. -/
structure Memory where
  currModule : Module := .exit
  requests : List Module := []
  handled : Option Module := none
  uiModule : Module := .exit
  uiQueue : List Module := []
  inputQueue : List InputMsg := []
  posted : List InputMsg := []
  frame : FrameModule := {}
  deriving DecidableEq

/-- `inputHandler.obtainMessage(..).sendToTarget()`. -/
def Memory.postInput (m : Memory) (msg : InputMsg) : Memory :=
  { m with inputQueue := m.inputQueue ++ [msg], posted := m.posted ++ [msg] }

/-- `uiHandler.obtainMessage(HANDLER_MODULE, module, 0).sendToTarget()`. -/
def Memory.postModule (m : Memory) (module : Module) : Memory :=
  { m with uiQueue := m.uiQueue ++ [module] }

/-- An assignment to fields of the `FrameModule`. -/
def Memory.onFrame (m : Memory) (f : FrameModule → FrameModule) : Memory :=
  { m with frame := f m.frame }

/-- The key codes passed to `sendInput(int)`, in order. -/
def Memory.keys (m : Memory) : List JInt := m.posted.filterMap InputMsg.key?

/-- `FrameModule.stop` after the write: `frameTask.stop(); running = false`.
`none` is the `NullPointerException` when no task was ever created. -/
def FrameModule.endStop (fm : FrameModule) : Option FrameModule :=
  fm.frameTask.map fun i => { fm with tasks := fm.tasks.modify i Task.stop, running := false }

/-- `FrameModule.start` before the write: a new `FrameTask` and its thread. -/
def FrameModule.beginStart (fm : FrameModule) : FrameModule :=
  { fm with tasks := fm.tasks ++ [Task.start {}], frameTask := some fm.tasks.length }

/-- The task in the field `frameTask`. -/
def FrameModule.currentTask (fm : FrameModule) : Option Task :=
  fm.frameTask.bind fun i => fm.tasks[i]?

end MikaAudio.Client
