import MikaAudio.Server.Input
import MikaAudio.Server.Frame

/-!
# The server's `CommunicationTask.run`

The thread of one connection: the loop that reads a module byte, the two modules
it calls, and what comes after the loop.  It starts where `run` has taken the
streams of its socket and set `running`.

An exception that is no `IOException` still runs the `finally` block, which
closes the streams and with them the socket, but then leaves `run`: the
connection stays in `connections` (`dead`).
-/

namespace MikaAudio.Server

open Thread

/-- Where `CommunicationTask.run` stands. -/
inductive TaskPc
  /-- `while (running)`. -/
  | loop
  /-- `module = in.read()`. -/
  | module
  /-- `out.write(0)` after a timeout there. -/
  | moduleTimeout
  /-- `case MODULE_EXIT`: `out.write(ACK)`. -/
  | exitAck
  /-- Inside `inputModule.listen(in, out)`. -/
  | listen (pc : ListenPc) (inString : List Byte)
  /-- Inside `frameModule.start(in, out, ..)`. -/
  | frame (pc : FramePc)
  /-- The `finally` block, with an exception on its way out or not. -/
  | closeStreams (escaping : Bool)
  /-- `connection.getConnection().close()`. -/
  | closeSocket
  /-- `connections.remove(connection)`. -/
  | remove
  /-- `run` has returned. -/
  | done
  /-- `run` was left by an exception. -/
  | dead
  deriving DecidableEq

/-- The `switch (module)`. -/
def TaskPc.ofModule (module : Byte) : TaskPc :=
  if module = moduleExit then .exitAck
  else if module = moduleInput then .listen .ack []
  else if module = moduleFrame then .frame .setInputModule
  else .loop

/-- `CommunicationTask.run` for connection `c`. -/
def taskOp (c : Nat) : TaskPc → Op Env Memory TaskPc
  | .loop => .act fun _ m => some (m, if m.running c then .module else .closeStreams false)
  | .module => .read fun
    | .byte module => .ofModule module
    | .eof => .loop
    | .timeout => .moduleTimeout
    | .error => .closeStreams false
  | .moduleTimeout => .write 0 fun ok => if ok then .loop else .closeStreams false
  | .exitAck => .write ack fun _ => .closeStreams false
  | .listen pc inString => listenOp .listen .loop (.closeStreams false) inString pc
  | .frame pc => startOp c .frame .loop (.closeStreams false) (.closeStreams true) pc
  | .closeStreams escaping => .act fun _ m =>
      some ({ m with closed := c :: m.closed }, if escaping then .dead else .closeSocket)
  | .closeSocket => .act fun _ m => some ({ m with closed := c :: m.closed }, .remove)
  | .remove => .act fun _ m => some ({ m with connections := m.connections.erase c }, .done)
  | .done => .halt
  | .dead => .halt

/-- A call of the private `start` that does not fit on the stack ends in an exception. -/
def TaskPc.onStack (stack : Nat) : TaskPc → TaskPc
  | .frame (.startWait depth) =>
    if depth ≤ stack then .frame (.startWait depth) else .closeStreams true
  | pc => pc

/-- The loop is left. -/
def TaskPc.left : TaskPc → Bool
  | .closeStreams _ => true
  | .closeSocket => true
  | .remove => true
  | .done => true
  | .dead => true
  | _ => false

/-- The states whose write is the `out.write(0)` of a caught
`SocketTimeoutException`. -/
def TaskPc.isTimeout : TaskPc → Bool
  | .moduleTimeout => true
  | .listen .modeTimeout _ => true
  | .listen .keyTimeout _ => true
  | .listen .textTimeout _ => true
  | .frame .portTimeout => true
  | .frame .startTimeout => true
  | .frame .parseTimeout => true
  | _ => false

end MikaAudio.Server
