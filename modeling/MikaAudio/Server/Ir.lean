import MikaAudio.Protocol
import MikaAudio.Lib.Buffer

/-!
# The server's `IrParser`

The thread that reads the events of the infrared receiver, 16 bytes each, from the device.
Its buffer holds two of them.  Every round reads into the buffer, whatever the count that
comes back, and looks at the first 16 bytes of it: an event that is not too early after the
last accepted one is accepted, and if its value is a known one, the key goes to
`inputKeyEvent`.

`type` and `code` of an event only go to the log of the device and are left out.
-/

namespace MikaAudio.Server

open Thread

/-- `KEY_PROTOCOLS`, in the order of the `put`s. -/
def keyProtocols : List (JInt × JInt) :=
  [(0x00010034, 21), (0x00010033, 22), (0x00010074, 19), (0x00010075, 20), (0x00010065, 23),
    (0x00010060, 3), (0x009700b6, 187), (0x009700a3, 4)]

/-- `buf.getInt(index)` in the order `LITTLE_ENDIAN`. -/
def getInt (buf : List Byte) (index : Nat) : JInt :=
  byteAt buf (index + 3) <<< 24 ||| (byteAt buf (index + 2) &&& 0xFF) <<< 16
    ||| (byteAt buf (index + 1) &&& 0xFF) <<< 8 ||| (byteAt buf index &&& 0xFF)

/-- The bytes of the buffer, and those of an event. -/
def lengthBuf : Nat := 32

def sizeEvent : Nat := 16

/-- `MIN_DELAY`, in microseconds: 0.1 s, where the comment at the test says `.5s`. -/
def minDelay : JInt := 100000

/-- A time stamp: `time_s` and `time_us`. -/
structure Time where
  s : JInt
  us : JInt
  deriving DecidableEq

/-- `time_s` and `time_us` of the event in front. -/
def timeOf (buf : List Byte) : Time := ⟨getInt buf 0, getInt buf 4⟩

/-- `(time_us - prev_time_us) >= MIN_DELAY || (time_s > prev_time_s && ..)`. -/
def Time.accepts (prev time : Time) : Bool :=
  minDelay.sle (time.us - prev.us) ||
    (prev.s.slt time.s && minDelay.sle (time.us + 1000000 - prev.us))

/-- The variables of `run` that live on from one round to the next. -/
structure IrParser where
  buf : List Byte := List.replicate lengthBuf 0
  prev : Time := ⟨0, 0⟩

/-- The event is not too early. -/
def IrParser.accepts (p : IrParser) : Bool := p.prev.accepts (timeOf p.buf)

/-- `prev_time_s = time_s; prev_time_us = time_us`, if the event is accepted. -/
def IrParser.keep (p : IrParser) : IrParser :=
  if p.accepts then { p with prev := timeOf p.buf } else p

/-- An event that has been looked at, after a read that gave `x`. -/
structure Examined where
  x : JInt
  event : List Byte
  accepted : Bool
  deriving DecidableEq

/-- The time stamp of the event. -/
def Examined.time (e : Examined) : Time := timeOf e.event

/-- What the parser works on: its flag and the keys it has passed to `inputKeyEvent`.
`log` is every event it has looked at; nothing reads it. -/
structure IrMemory where
  running : Bool := true
  keys : List JInt := []
  log : List Examined := []

/-- The body of the round, after the read. -/
def IrMemory.examine (m : IrMemory) (p : IrParser) (x : JInt) : IrMemory where
  running := m.running
  keys := if p.accepts then m.keys ++ (keyProtocols.lookup (getInt p.buf 12)).toList else m.keys
  log := m.log ++ [⟨x, p.buf.take sizeEvent, p.accepts⟩]

/-- Where `run` stands. -/
inductive IrPc
  /-- `while (running)`. -/
  | loop (p : IrParser)
  /-- `x = iStream.read(buf.array())`. -/
  | read (p : IrParser)
  /-- The rest of the round. -/
  | examine (p : IrParser) (x : JInt)
  | done

/-- `IrParser.run`; any `IOException` ends it. -/
def irOp : IrPc → Op Unit IrMemory IrPc
  | .loop p => .act fun _ m => some (m, if m.running then .read p else .done)
  | .read p => .readBuf lengthBuf fun
    | .bytes bs =>
      .examine { p with buf := Buffer.overwrite p.buf 0 bs } (BitVec.ofNat 32 bs.length)
    | .eof => .examine p (-1)
    | .timeout => .done
    | .error => .done
  | .examine p x => .act fun _ m => some (m.examine p x, .loop p.keep)
  | .done => .halt

/-- The parser at its start, with what the device will give. -/
def irStart (input : List Byte) : Conf IrMemory IrPc := ⟨{}, .loop {}, input, []⟩

/-- The variables where the parser stands. -/
def IrPc.parser : IrPc → Option IrParser
  | .loop p => some p
  | .read p => some p
  | .examine p _ => some p
  | .done => none

section Step

variable {ch : Choice Unit} {ended : Bool} {c t : Conf IrMemory IrPc}

theorem irStep_cases (h : c.step irOp ended ch = some t) :
    (∃ p, c.pc = .loop p ∧ t = { c with pc := if c.mem.running then .read p else .done }) ∨
    (∃ p n, c.pc = .read p ∧ 0 < n ∧ n ≤ lengthBuf ∧ n ≤ c.input.length ∧
      t = { c with
        input := c.input.drop n
        pc := .examine { p with buf := Buffer.overwrite p.buf 0 (c.input.take n) }
          (BitVec.ofNat 32 n) } ∧ ∃ e, ch = .go e n) ∨
    (∃ p, c.pc = .read p ∧ c.input = [] ∧ ended = true ∧ t = { c with pc := .examine p (-1) }) ∨
    (∃ p x, c.pc = .examine p x ∧ t = { c with mem := c.mem.examine p x, pc := .loop p.keep }) ∨
    (ch = .timeout ∨ ch = .fail) ∧ t = { c with pc := .done } := by
  obtain ⟨m, pc, input, out⟩ := c
  cases ch with
  | go e n =>
    cases pc with
    | loop p =>
      rw [Conf.step_act rfl] at h
      obtain rfl := Option.some.inj h
      exact Or.inl ⟨p, rfl, rfl⟩
    | read p =>
      cases input with
      | nil =>
        rw [Conf.step_readBuf_nil rfl] at h
        split_ifs at h with hend
        obtain rfl := Option.some.inj h
        exact Or.inr (Or.inr (Or.inl ⟨p, rfl, rfl, hend, rfl⟩))
      | cons b rest =>
        rw [Conf.step_readBuf rfl] at h
        split_ifs at h with hn
        obtain rfl := Option.some.inj h
        refine Or.inr (Or.inl ⟨p, n, rfl, hn.1, hn.2.1, hn.2.2, ?_, e, rfl⟩)
        simp only [List.length_take, Nat.min_eq_left hn.2.2]
    | examine p x =>
      rw [Conf.step_act rfl] at h
      obtain rfl := Option.some.inj h
      exact Or.inr (Or.inr (Or.inr (Or.inl ⟨p, x, rfl, rfl⟩)))
    | done => cases h
  | timeout =>
    cases pc with
    | read p =>
      obtain rfl := Option.some.inj h
      exact Or.inr (Or.inr (Or.inr (Or.inr ⟨Or.inl rfl, rfl⟩)))
    | _ => cases h
  | fail =>
    cases pc with
    | read p =>
      obtain rfl := Option.some.inj h
      exact Or.inr (Or.inr (Or.inr (Or.inr ⟨Or.inr rfl, rfl⟩)))
    | _ => cases h

end Step

end MikaAudio.Server
