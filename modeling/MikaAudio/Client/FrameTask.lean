import MikaAudio.Protocol
import MikaAudio.Lib.Buffer

/-!
# The client's `FrameTask.run`

A packet that comes in is copied into the buffer of the `FrameView` at the offset its
header names, and if its first byte is `1` the view is told that a frame is ready.
`none` is an exception of `System.arraycopy`, which ends the task.
-/

namespace MikaAudio.Client

open Thread (Byte)

/-- What the task works on: the array of its packet, the buffer of the view, and every
call of `frameView.ready` with the buffer at that moment. -/
structure FrameTask where
  data : List Byte
  buffer : List Byte
  ready : List (Nat × List Byte) := []

/-- `SIZE_PIXEL`. -/
def sizePixel : JInt := 2

/-- `new FrameTask(socket, packet, frameView)`, with the buffer that `frameView.start()`
has made: `width * height * pixelSize` bytes. -/
def FrameTask.new (data : List Byte) (width height : JInt) : FrameTask where
  data := data
  buffer := List.replicate (width * height * sizePixel).toNat 0

/-- One round of `while (running)`: `socket.receive(packet)` takes a packet of at most
the length set and leaves the rest of `data` as it is. -/
def FrameTask.receive (task : FrameTask) (packet : List Byte) : Option FrameTask := do
  let packet := packet.take (sizeData + sizeFrameHeader)
  let data := Buffer.overwrite task.data 0 packet
  let index := (readIntN data 1 3).toNat
  if packet.length < sizeFrameHeader then none
  else
    let buffer ← Buffer.copy data sizeFrameHeader task.buffer index
      (packet.length - sizeFrameHeader)
    return {
      data := data
      buffer := buffer
      ready :=
        if readByte data 0 = 1 then
          task.ready ++ [(index + packet.length - sizeFrameHeader, buffer)]
        else task.ready }

/-- The packets of a list come in one after the other. -/
def FrameTask.run (task : FrameTask) (packets : List (List Byte)) : Option FrameTask :=
  packets.foldlM FrameTask.receive task

theorem FrameTask.run_cons (task : FrameTask) (p : List Byte) (ps : List (List Byte)) :
    task.run (p :: ps) = (task.receive p).bind (·.run ps) :=
  List.foldlM_cons

theorem FrameTask.run_append (task : FrameTask) (ps qs : List (List Byte)) :
    task.run (ps ++ qs) = (task.run ps).bind (·.run qs) :=
  List.foldlM_append

end MikaAudio.Client
