import MikaAudio.Client.Memory

/-!
# The client's `ModuleThread`

`ModuleThread.handleMessage` takes one request at a time.  Each mode it has to
leave or enter is a loop that writes a request and reads one byte until that
byte is `ACK`; only the `MODULE_FRAME` request is written once, before its loop.
In the source the cases of the inner switches fall through: leaving a mode goes
on to entering the other.

`FrameModule.init` is called from here, on this thread.
-/

namespace MikaAudio.Client

open Thread

/-- Where `FrameModule.init` stands. -/
inductive InitPc
  /-- `if (running) return false; else running = true`. -/
  | testRunning
  /-- `socket` and `packet`. -/
  | newSocket
  /-- `ByteUtil.writeInt(out, socket.getLocalPort())`, with the bytes still to
  write. -/
  | writePort (bs : List Byte)
  /-- `inputPort = ByteUtil.readInt(in)`, with the bytes read so far. -/
  | readPort (bs : List JInt)
  /-- `inputModule.initFrameInput(targetIp, inputPort)`. -/
  | initFrameInput (inputPort : JInt)
  /-- `socket.receive(packet)`. -/
  | receive
  /-- `frameView.setDimensions(width, height, ..)`. -/
  | setDimensions (data : List Byte)
  /-- `return in.read() == ACK`. -/
  | final
  /-- `catch (IOException e)`: `running = false; return false`. -/
  | failed
  deriving DecidableEq

/-- `readInt(InputStream)` has read one more of its four bytes. -/
def InitPc.ofPortBytes (bs : List JInt) : InitPc :=
  if bs.length = 4 then .initFrameInput (readIntOf bs) else .readPort bs

/-- What `packet.getData()` holds after a datagram came into a new packet. -/
def packetData (data : List Byte) : List Byte :=
  data.take (sizeFrameHeader + sizeData)
    ++ List.replicate (sizeFrameHeader + sizeData - data.length) 0

variable {σ : Type}

/-- `FrameModule.init`: `ret` returns its value, `crash` leaves it by an exception
nobody catches. -/
def initOp (goto : InitPc → σ) (ret : Bool → σ) (crash : σ) (socketPort : JInt) :
    InitPc → Op Env Memory σ
  | .testRunning => .act fun _ m =>
      if m.frame.running then some (m, ret false)
      else some (m.onFrame ({ · with running := true }), goto .newSocket)
  | .newSocket => .act fun e m =>
      some (m.onFrame ({ · with socketPort := e.port }), goto (.writePort (intBytes e.port)))
  | .writePort (b :: bs) => .write b fun ok => goto (if ok then .writePort bs else .failed)
  | .writePort [] => .act fun _ m => some (m, goto (.readPort []))
  | .readPort bs => .read fun
    | .byte b => goto (.ofPortBytes (bs ++ [inRead (some b)]))
    | .eof => goto (.ofPortBytes (bs ++ [inRead none]))
    | .timeout => goto .failed
    | .error => goto .failed
  | .initFrameInput inputPort => .act fun _ m =>
      if validPort inputPort then
        some (m.onFrame ({ · with inputPort := inputPort }), goto .receive)
      else some (m, crash)
  | .receive => .receive socketPort fun data => goto (.setDimensions (packetData data))
  | .setDimensions data => .act fun _ m =>
      some (m.onFrame ({ · with width := readInt data 0, height := readInt data 4 }), goto .final)
  | .final => .read fun
    | .byte b => ret (b = ack)
    | .eof => ret false
    | .timeout => goto .failed
    | .error => goto .failed
  | .failed => .act fun _ m => some (m.onFrame ({ · with running := false }), ret false)

/-- Where `ModuleThread` stands. -/
inductive ModulePc
  /-- Waiting for a message. -/
  | idle
  /-- `frameModule.stop()`: `if (!running) return`. -/
  | stopTest
  /-- `out.write(ACK)` of `stop`. -/
  | stopWrite
  /-- The rest of `stop`. -/
  | stopTask
  /-- `in.read() == ACK` after `stop`. -/
  | stopWait
  /-- `out.write(MODULE_INPUT)`. -/
  | inputWrite
  /-- `in.read() == ACK` after it. -/
  | inputWait
  /-- `currModule = MODULE_INPUT` and the message to the UI thread. -/
  | inputDone
  /-- `inputModule.exit()`. -/
  | exit
  /-- `in.read() == ACK` after it. -/
  | exitWait
  /-- `out.write(MODULE_FRAME)`. -/
  | frameWrite
  /-- `response = in.read()`. -/
  | frameWait
  /-- Inside `frameModule.init`. -/
  | init (pc : InitPc)
  /-- The message to the UI thread if `init` gave `true`. -/
  | initDone (ok : Bool)
  /-- The thread died of an exception. -/
  | dead
  deriving DecidableEq

/-- The two nested switches of `handleMessage`, on the requested and on the
current module. -/
def ModulePc.ofRequest : Module → Module → ModulePc
  | .exit, _ => .idle
  | .input, .frame => .stopTest
  | .input, .exit => .inputWrite
  | .input, .input => .idle
  | .frame, .input => .exit
  | .frame, .exit => .frameWrite
  | .frame, .frame => .idle

/-- `ModuleThread`; `socketPort` is the port of the `FrameModule`'s socket. -/
def moduleOp (socketPort : JInt) : ModulePc → Op Env Memory ModulePc
  | .idle => .act fun _ m =>
      match m.requests with
      | request :: rest =>
        some ({ m with requests := rest, handled := some request },
          .ofRequest request m.currModule)
      | [] => none
  | .stopTest => .act fun _ m => some (m, if m.frame.running then .stopWrite else .stopWait)
  | .stopWrite => .write ack fun ok => if ok then .stopTask else .stopWait
  | .stopTask => .act fun _ m =>
      some (match m.frame.endStop with
        | some fm => ({ m with frame := fm }, .stopWait)
        | none => (m, .dead))
  | .stopWait => .read fun
    | .byte b => if b = ack then .inputWrite else .stopTest
    | .eof => .stopTest
    | .timeout => .idle
    | .error => .idle
  | .inputWrite => .write moduleInput fun ok => if ok then .inputWait else .idle
  | .inputWait => .read fun
    | .byte b => if b = ack then .inputDone else .inputWrite
    | .eof => .inputWrite
    | .timeout => .idle
    | .error => .idle
  | .inputDone => .act fun _ m =>
      some ({ m with currModule := .input }.postModule .input, .idle)
  | .exit => .act fun _ m => some (m.postInput .exit, .exitWait)
  | .exitWait => .read fun
    | .byte b => if b = ack then .frameWrite else .exit
    | .eof => .exit
    | .timeout => .idle
    | .error => .idle
  | .frameWrite => .write moduleFrame fun ok => if ok then .frameWait else .idle
  | .frameWait => .read fun
    | .byte b =>
      if b = ack then .init .testRunning else if b = reject then .idle else .frameWait
    | .eof => .frameWait
    | .timeout => .idle
    | .error => .idle
  | .init pc => initOp .init .initDone .dead socketPort pc
  | .initDone ok => .act fun _ m => some (if ok then m.postModule .frame else m, .idle)
  | .dead => .halt

end MikaAudio.Client
