import MikaAudio.Server.Memory

/-!
# The server's `InputModule.listen`

One state for each statement of `listen` that blocks, writes or dispatches.  A
`SocketTimeoutException` is caught by the loop nearest to the read, which writes
one `0x00` and reads again; any other `IOException` leaves `listen`.

`inString` is the `ByteArrayOutputStream` that `listen` creates once and every
`readString` appends to; nothing resets it.
-/

namespace MikaAudio.Server

open Thread

/-- `ByteUtil.LENGTH_BUFFER`. -/
def lengthBuffer : Nat := 1024

/-- Where `listen` stands. -/
inductive ListenPc
  /-- `out.write(ACK)` on entry. -/
  | ack
  /-- `mode = in.read()`. -/
  | mode
  /-- `out.write(0)` after a timeout there. -/
  | modeTimeout
  /-- `in.read()` of the key. -/
  | key
  /-- `out.write(0)` after a timeout there. -/
  | keyTimeout
  /-- `inputKeyEvent(key)`. -/
  | dispatchKey (key : JInt)
  /-- `in.read(buffer)` in `readString`. -/
  | text
  /-- `out.write(0)` after a timeout there. -/
  | textTimeout
  /-- `inputString(..)`. -/
  | dispatchText
  /-- `out.write(ACK)` after `break listening`. -/
  | exitAck
  deriving DecidableEq

/-- The `switch (mode)` of `listen`. -/
def ListenPc.ofMode (mode : Byte) : ListenPc :=
  if mode = modeExit then .exitAck
  else if mode = modeKey then .key
  else if mode = modeText then .text
  else .mode

variable {ε σ : Type}

/-- `InputModule.listen`: `goto` goes on inside `listen`, `ret` returns from it
and `ioe` leaves it by an `IOException`. -/
def listenOp (goto : ListenPc → List Byte → σ) (ret ioe : σ) (inString : List Byte) :
    ListenPc → Op ε Memory σ
  | .ack => .write ack fun ok => if ok then goto .mode inString else ioe
  | .mode => .read fun
    | .byte mode => goto (.ofMode mode) inString
    | .eof => goto .mode inString
    | .timeout => goto .modeTimeout inString
    | .error => ioe
  | .modeTimeout => .write 0 fun ok => if ok then goto .mode inString else ioe
  | .key => .read fun
    | .byte key => goto (.dispatchKey (inRead (some key))) inString
    | .eof => goto (.dispatchKey (inRead none)) inString
    | .timeout => goto .keyTimeout inString
    | .error => ioe
  | .keyTimeout => .write 0 fun ok => if ok then goto .key inString else ioe
  | .dispatchKey key => .act fun _ m => some (m.post (.key key), goto .mode inString)
  | .text => .readBuf lengthBuffer fun
    | .bytes bs => goto .text (inString ++ bs)
    | .eof => goto .dispatchText inString
    | .timeout => goto .textTimeout inString
    | .error => ioe
  | .textTimeout => .write 0 fun ok => if ok then goto .text inString else ioe
  | .dispatchText => .act fun _ m => some (m.post (.text inString), goto .mode inString)
  | .exitAck => .write ack fun ok => if ok then ret else ioe

end MikaAudio.Server
