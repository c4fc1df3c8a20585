import MikaAudio.Server.Memory

/-!
# The server's `FrameModule.start`

`start(in, out, ..)` calls `init`, then the private `start(in, out)`, which
waits for the client's start `ACK` and calls `parse`, which waits for its stop
`ACK`.  All of it is one list of states here, in the order of the source.

Two things are easily missed.  The assignment `connected = true` is commented
out, so the test at the top always takes the first branch.  And the private
`start` calls itself for every byte that is no `ACK`: `depth` counts the calls,
and whichever of them ends, by `parse` returning or by a timeout, all the
others return at once.
-/

namespace MikaAudio.Server

open Thread

/-- Where `FrameModule.start` stands. -/
inductive FramePc
  /-- `this.inputModule = inputModule`. -/
  | setInputModule
  /-- `if (!connected)`. -/
  | testConnected
  /-- The first `out.write(ACK)`. -/
  | ack
  /-- `init`: `framePort = ByteUtil.readInt(in)`, with the bytes read so far. -/
  | port (bs : List JInt)
  /-- `out.write(0)` after a timeout there; the bytes read are lost. -/
  | portTimeout
  /-- `frameSocket` and `framePacket`. -/
  | newFramePacket (framePort : JInt)
  /-- `inputSocket` and `inputPacket`. -/
  | newInputSocket (framePort : JInt)
  /-- `inputSocket.getLocalPort()`. -/
  | getInputPort (framePort : JInt)
  /-- `ByteUtil.writeInt(out, ..)`, with the bytes still to write. -/
  | writeInputPort (framePort : JInt) (bs : List Byte)
  /-- `screenWidth` and `screenHeight` from the metrics. -/
  | metrics (framePort : JInt)
  /-- The dimensions go into the packet. -/
  | fillPacket (framePort : JInt)
  /-- `frameSocket.send(framePacket)`. -/
  | sendPacket (framePort : JInt) (data : List Byte)
  /-- `instance = init(screenWidth, screenHeight)`. -/
  | nativeInit (framePort : JInt)
  /-- `frameTask = new FrameTask(..)`. -/
  | newFrameTask (framePort : JInt)
  /-- `return instance != -1`. -/
  | testInstance
  /-- `out.write(ACK)` after a successful `init`. -/
  | initAck
  /-- `out.write(REJECT)` after a failed one. -/
  | initReject
  /-- `connected = false`. -/
  | clearConnected
  /-- Private `start`: `in.read()`. -/
  | startWait (depth : Nat)
  /-- `out.write(0)` after a timeout there. -/
  | startTimeout
  /-- `new Thread(frameTask).start()`. -/
  | startFrameTask
  /-- `parse`: `inputTask = new InputTask(..)`. -/
  | newInputTask
  /-- `new Thread(inputTask).start()`. -/
  | startInputTask
  /-- `in.read()` of `parse`. -/
  | parse
  /-- `out.write(0)` after a timeout there. -/
  | parseTimeout
  /-- `frameTask.stop()`. -/
  | stopFrameTask
  /-- `inputTask.stop()`. -/
  | stopInputTask
  /-- `out.write(REJECT)` when `connected` was set. -/
  | busyReject
  /-- `catch (IOException e)`: `frameTask.stop()` if there is one. -/
  | catchFrameTask
  /-- `inputTask.stop()` if there is one, then `throw e`. -/
  | catchInputTask
  deriving DecidableEq

/-- `readInt(InputStream)` has read one more of its four bytes. -/
def FramePc.ofPortBytes (bs : List JInt) : FramePc :=
  if bs.length = 4 then .newFramePacket (readIntOf bs) else .port bs

/-- The data of `framePacket` when the dimensions are sent. -/
def dimensionsPacket (width height : JInt) : List Byte :=
  writeInt (writeInt (List.replicate (sizeFrameHeader + sizeData) 0) width 0) height 4

variable {σ : Type}

/-- `FrameModule.start` for connection `c`: `goto` goes on inside `start`, `ret`
returns from it, `ioe` leaves it by an `IOException` and `crash` by an exception
nobody catches. -/
def startOp (c : Nat) (goto : FramePc → σ) (ret ioe crash : σ) : FramePc → Op Env Memory σ
  | .setInputModule => .act fun _ m =>
      some (m.onFrame ({ · with inputModule := some c }), goto .testConnected)
  | .testConnected => .act fun _ m =>
      some (m, goto (if m.frame.connected then .busyReject else .ack))
  | .ack => .write ack fun ok => goto (if ok then .port [] else .catchFrameTask)
  | .port bs => .read fun
    | .byte b => goto (.ofPortBytes (bs ++ [inRead (some b)]))
    | .eof => goto (.ofPortBytes (bs ++ [inRead none]))
    | .timeout => goto .portTimeout
    | .error => goto .catchFrameTask
  | .portTimeout => .write 0 fun ok => goto (if ok then .port [] else .catchFrameTask)
  | .newFramePacket framePort => .act fun e m =>
      if e.sockets then
        some (m, if validPort framePort then goto (.newInputSocket framePort) else crash)
      else some (m, goto .catchFrameTask)
  | .newInputSocket framePort => .act fun e m =>
      if e.sockets then
        some (m.onFrame ({ · with inputSocket := some ⟨c, e.port⟩, inputPacket := some c }),
          goto (.getInputPort framePort))
      else some (m, goto .catchFrameTask)
  | .getInputPort framePort => .act fun _ m =>
      some (m, match m.frame.inputSocket with
        | some socket => goto (.writeInputPort framePort (intBytes socket.port))
        | none => crash)
  | .writeInputPort framePort (b :: bs) => .write b fun ok =>
      goto (if ok then .writeInputPort framePort bs else .catchFrameTask)
  | .writeInputPort framePort [] => .act fun _ m => some (m, goto (.metrics framePort))
  | .metrics framePort => .act fun e m =>
      some (m.onFrame ({ · with screenWidth := e.width, screenHeight := e.height }),
        goto (.fillPacket framePort))
  | .fillPacket framePort => .act fun _ m =>
      some (m, goto (.sendPacket framePort
        (dimensionsPacket m.frame.screenWidth m.frame.screenHeight)))
  | .sendPacket framePort data => .send framePort data fun ok =>
      goto (if ok then .nativeInit framePort else .catchFrameTask)
  | .nativeInit framePort => .act fun e m =>
      some (m.onFrame ({ · with instancePtr := e.screen }), goto (.newFrameTask framePort))
  | .newFrameTask framePort => .act fun e m =>
      if e.bitmap then
        some (m.onFrame fun fm => { fm with
            frameTasks := fm.frameTasks ++
              [⟨c, fm.instancePtr, framePort, fm.screenWidth, fm.screenHeight, {}⟩]
            frameTask := some fm.frameTasks.length },
          goto .testInstance)
      else some (m, crash)
  | .testInstance => .act fun _ m =>
      some (m, goto (if m.frame.instancePtr ≠ -1 then .initAck else .initReject))
  | .initAck => .write ack fun ok => goto (if ok then .startWait 0 else .catchFrameTask)
  | .initReject => .write reject fun ok => goto (if ok then .clearConnected else .catchFrameTask)
  | .clearConnected => .act fun _ m => some (m.onFrame ({ · with connected := false }), ret)
  | .startWait depth => .read fun
    | .byte b => goto (if b = MikaAudio.ack then .startFrameTask else .startWait (depth + 1))
    | .eof => goto (.startWait (depth + 1))
    | .timeout => goto .startTimeout
    | .error => goto .catchFrameTask
  | .startTimeout => .write 0 fun ok => if ok then ret else goto .catchFrameTask
  | .startFrameTask => .act fun _ m =>
      some (m.onFrame (·.onFrameTask Task.start), goto .newInputTask)
  | .newInputTask => .act fun _ m =>
      some (m.onFrame fun fm => { fm with
          inputTasks := fm.inputTasks ++ [⟨c, fm.inputSocket, fm.inputPacket, fm.inputModule,
            fm.screenWidth, fm.screenHeight, {}⟩]
          inputTask := some fm.inputTasks.length },
        goto .startInputTask)
  | .startInputTask => .act fun _ m =>
      some (m.onFrame (·.onInputTask Task.start), goto .parse)
  | .parse => .read fun
    | .byte b => goto (if b = MikaAudio.ack then .stopFrameTask else .parse)
    | .eof => goto .parse
    | .timeout => goto .parseTimeout
    | .error => goto .catchFrameTask
  | .parseTimeout => .write 0 fun ok => goto (if ok then .parse else .catchFrameTask)
  | .stopFrameTask => .act fun _ m =>
      some (m.onFrame (·.onFrameTask Task.stop), goto .stopInputTask)
  | .stopInputTask => .act fun _ m =>
      some (m.onFrame (·.onInputTask Task.stop), ret)
  | .busyReject => .write reject fun ok => if ok then ret else goto .catchFrameTask
  | .catchFrameTask => .act fun _ m =>
      some (m.onFrame (·.onFrameTask Task.stop), goto .catchInputTask)
  | .catchInputTask => .act fun _ m =>
      some (m.onFrame (·.onInputTask Task.stop), ioe)

end MikaAudio.Server
