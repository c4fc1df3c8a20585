import MikaAudio.Client.Modules
import MikaAudio.Server.Communication

/-!
# One client and the server's thread for its connection

The state of both ends, the two byte streams between them and the datagrams in
flight.  A `Label` says which thread makes its next operation, or which call the
user interface makes; `Session.step` makes it.  The environment's answers (ports,
the display, native `init`) are part of the label, so one label is one step and
all nondeterminism is in the list of labels.

What is written is tagged with the statement that wrote it (`Client.Sent`,
`Answer`); both programs read the value only.
-/

namespace MikaAudio

open Thread (Byte)

/-- A byte on its way to the client: a reply, or the `0x00` the server writes
after a read timeout. -/
inductive Answer
  | reply (b : Byte)
  | timeout
  deriving DecidableEq

/-- The byte itself. -/
def Answer.val : Answer → Byte
  | .reply b => b
  | .timeout => 0

/-- A datagram in flight. -/
structure Datagram where
  port : JInt
  data : List Byte
  deriving DecidableEq

/-- The first datagram for a port, and the others. -/
def takeDatagram (port : JInt) : List Datagram → Option (List Byte × List Datagram)
  | [] => none
  | d :: ds =>
    if d.port = port then some (d.data, ds)
    else (takeDatagram port ds).map fun r => (r.1, d :: r.2)

/-- The calls of the client's `FrameModule`. -/
inductive Call
  | start
  | stop
  deriving DecidableEq

/-- Both ends of a connection.  `input` is what the `InputThread` has still to
write for the message it handles; `uiStopping` says that the UI thread is in
`FrameView.stop` called from `FrameModule.stop`, `uiDead` that an exception
ended it, and `lastCall` is the last call of `FrameModule.start` or `stop` that
did not return at once. -/
structure Session where
  client : Client.Memory := {}
  module : Client.ModulePc := .idle
  input : List Client.Sent := []
  uiStopping : Bool := false
  uiDead : Bool := false
  lastCall : Option Call := none
  c2s : List Client.Sent := []
  s2c : List Answer := []
  net : List Datagram := []
  server : Server.TaskPc := .loop
  memory : Server.Memory := { connections := [0] }

namespace Session

/-- Who moves. -/
inductive Label
  /-- The UI calls `switchModule(module)`. -/
  | switchModule (module : Module)
  /-- The UI calls `getInputModule().sendInput(key)`. -/
  | sendInput (key : JInt)
  /-- The UI thread handles a `HANDLER_MODULE` message. -/
  | uiMessage
  /-- The UI calls `getFrameModule().start()`. -/
  | start
  /-- The UI calls `frameModule.stop()`, up to `frameView.stop()`. -/
  | stop
  /-- `frameView.stop()` has returned, and `stop` ends. -/
  | stopReturn
  /-- A started `FrameTask` of the client comes to `run()`. -/
  | beginClientTask (i : Nat)
  /-- The `ModuleThread` makes its next operation. -/
  | module (e : Client.Env)
  /-- The `ModuleThread` reads the end of the stream. -/
  | moduleEof
  /-- A read of the `ModuleThread` times out (`SOCKET_TIMEOUT` of `setSocket`). -/
  | moduleTimeout
  /-- The `InputThread` takes a message or writes a byte. -/
  | input
  /-- The `CommunicationTask` makes its next operation. -/
  | server (e : Server.Env)
  /-- A read of the `CommunicationTask` times out. -/
  | serverTimeout
  /-- The oldest datagram is lost. -/
  | lose
  /-- A started `FrameTask` of the server comes to `run()`. -/
  | beginFrameTask (i : Nat)
  /-- A started `InputTask` of the server comes to `run()`. -/
  | beginInputTask (i : Nat)

/-- The UI thread is at its message loop. -/
def uiFree (s : Session) : Bool := !s.uiStopping && !s.uiDead

/-- The `ModuleThread`'s next operation. -/
def stepModule (e : Client.Env) (s : Session) : Option Session :=
  match Client.moduleOp s.client.frame.socketPort s.module with
  | .read k =>
    match s.s2c with
    | a :: rest => some { s with s2c := rest, module := k (.byte a.val) }
    | [] => none
  | .readBuf _ _ => none
  | .write b k => some { s with c2s := s.c2s ++ [⟨b, .module⟩], module := k true }
  | .send _ _ _ => none
  | .receive port k =>
    (takeDatagram port s.net).map fun r => { s with net := r.2, module := k r.1 }
  | .act f => (f e s.client).map fun r => { s with client := r.1, module := r.2 }
  | .halt => none

/-- The `ModuleThread` reads the end of the stream: nothing is left to read and
the server has closed the socket. -/
def stepModuleEof (s : Session) : Option Session :=
  match Client.moduleOp s.client.frame.socketPort s.module with
  | .read k =>
    if s.s2c = [] ∧ 0 ∈ s.memory.closed then some { s with module := k .eof } else none
  | _ => none

/-- A read of the `ModuleThread` times out; the reply may still come. -/
def stepModuleTimeout (s : Session) : Option Session :=
  match Client.moduleOp s.client.frame.socketPort s.module with
  | .read k => some { s with module := k .timeout }
  | _ => none

/-- The `InputThread`: the next byte of the message it handles, or the next
message. -/
def stepInput (s : Session) : Option Session :=
  match s.input, s.client.inputQueue with
  | b :: bs, _ => some { s with c2s := s.c2s ++ [b], input := bs }
  | [], msg :: msgs =>
    some { s with client := { s.client with inputQueue := msgs }, input := msg.bytes }
  | [], [] => none

/-- The `CommunicationTask`'s next operation; a read into a buffer returns one
byte. -/
def stepServer (e : Server.Env) (s : Session) : Option Session :=
  match Server.taskOp 0 s.server with
  | .read k =>
    match s.c2s with
    | b :: rest => some { s with c2s := rest, server := k (.byte b.val) }
    | [] => none
  | .readBuf _ k =>
    match s.c2s with
    | b :: rest => some { s with c2s := rest, server := k (.bytes [b.val]) }
    | [] => none
  | .write b k =>
    some { s with
      s2c := s.s2c ++ [if s.server.isTimeout then .timeout else .reply b]
      server := k true }
  | .send port data k => some { s with net := s.net ++ [⟨port, data⟩], server := k true }
  | .receive _ _ => none
  | .act f => (f e s.memory).map fun r => { s with memory := r.1, server := r.2 }
  | .halt => none

/-- A read of the `CommunicationTask` times out. -/
def stepServerTimeout (s : Session) : Option Session :=
  match Server.taskOp 0 s.server with
  | .read k => some { s with server := k .timeout }
  | .readBuf _ k => some { s with server := k .timeout }
  | _ => none

/-- One call or one message of the UI thread. -/
def stepUi (l : Label) (s : Session) : Option Session :=
  match l with
  | .switchModule m =>
    some { s with client := { s.client with requests := s.client.requests ++ [m] } }
  | .sendInput key =>
    if s.client.uiModule = .input then some { s with client := s.client.postInput (.key key) }
    else none
  | .uiMessage =>
    match s.client.uiQueue with
    | m :: rest => some { s with client := { s.client with uiQueue := rest, uiModule := m } }
    | [] => none
  | .start =>
    if s.client.uiModule = .frame then
      some { s with
        client := s.client.onFrame Client.FrameModule.beginStart
        c2s := s.c2s ++ [⟨ack, .ui⟩]
        lastCall := some .start }
    else none
  | .stop =>
    if s.client.uiModule = .frame then
      if s.client.frame.running then
        some { s with
          c2s := s.c2s ++ [⟨ack, .ui⟩]
          uiStopping := true
          lastCall := some .stop }
      else some s
    else none
  | _ => none

/-- `FrameModule.stop` after `frameView.stop()`. -/
def stepStopReturn (s : Session) : Option Session :=
  if s.uiStopping then
    match s.client.frame.endStop with
    | some fm => some { s with client := { s.client with frame := fm }, uiStopping := false }
    | none => some { s with uiStopping := false, uiDead := true }
  else none

/-- A task of a list comes to `run()`. -/
def beginAt {α : Type} (get : α → Task) (set : α → Task → α) (i : Nat) (ts : List α) :
    Option (List α) := do
  let t ← ts[i]?
  let t' ← (get t).begin
  return ts.modify i fun a => set a t'

/-- One step of the session. -/
def step (l : Label) (s : Session) : Option Session :=
  match l with
  | .module e => if s.uiDead then none else s.stepModule e
  | .moduleEof => if s.uiDead then none else s.stepModuleEof
  | .moduleTimeout => if s.uiDead then none else s.stepModuleTimeout
  | .input => if s.uiDead then none else s.stepInput
  | .server e => s.stepServer e
  | .serverTimeout => s.stepServerTimeout
  | .lose =>
    match s.net with
    | _ :: ds => some { s with net := ds }
    | [] => none
  | .stopReturn => if s.uiDead then none else s.stepStopReturn
  | .beginClientTask i =>
    if s.uiDead then none else
    (beginAt id (fun _ t => t) i s.client.frame.tasks).map fun ts =>
      { s with client := s.client.onFrame ({ · with tasks := ts }) }
  | .beginFrameTask i =>
    (beginAt Server.FrameTask.task (fun a t => { a with task := t }) i
      s.memory.frame.frameTasks).map fun ts =>
      { s with memory := s.memory.onFrame ({ · with frameTasks := ts }) }
  | .beginInputTask i =>
    (beginAt Server.InputTask.task (fun a t => { a with task := t }) i
      s.memory.frame.inputTasks).map fun ts =>
      { s with memory := s.memory.onFrame ({ · with inputTasks := ts }) }
  | l => if s.uiFree then s.stepUi l else none

/-- The replies in the stream to the client, without the timeout bytes. -/
def replies (s2c : List Answer) : List Byte :=
  s2c.filterMap fun
    | .reply b => some b
    | .timeout => none

@[simp] theorem replies_nil : replies [] = [] := rfl

@[simp] theorem replies_reply (b : Byte) (l : List Answer) :
    replies (.reply b :: l) = b :: replies l := rfl

@[simp] theorem replies_timeout (l : List Answer) : replies (.timeout :: l) = replies l := rfl

@[simp] theorem replies_append (l l' : List Answer) :
    replies (l ++ l') = replies l ++ replies l' := by
  simp [replies]

end Session

end MikaAudio
