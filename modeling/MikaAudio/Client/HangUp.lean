import MikaAudio.Codec
import MikaAudio.Client.Modules

/-!
# A switch on a connection that ends

`ModuleThread.handleMessage` on all that the server still sends, followed by the end of the
stream.  Each of its loops takes `-1` for one more byte that is not the one it waits for and
goes on; so the switch ends exactly if the bytes it waits for are still there, if
`FrameModule.init` waits for a datagram only where one comes, and if the thread that
`FrameModule.stop` joins ends (`Answered`).

The rest of the input is the rank: a loop either reads a byte or goes round for ever.
-/

namespace MikaAudio.Client

open Thread (Byte Op)
open Interleave (Path Inevitable)

/-! ### One request -/

/-- What `ModuleThread` has read and written, in order. -/
inductive Event
  | read (b : Byte)
  | wrote (b : Byte)
  deriving DecidableEq

/-- `handleMessage` with what is left of the input; `trace` is never read. -/
structure Switch where
  mem : Memory
  pc : ModulePc
  input : List Byte
  trace : List Event := []
  deriving DecidableEq

/-- The byte that asks for a module. -/
def moduleByte : Module → Byte
  | .exit => moduleExit
  | .input => moduleInput
  | .frame => moduleFrame

/-- What the environment answers: the port of a new socket, the datagram that comes to it, if one
comes, and whether the `FrameThread` ends that `FrameView.stop` joins. -/
structure Surroundings where
  env : Env
  packet : Option (List Byte)
  joins : Bool

namespace Switch

/-- `handleMessage` is called. -/
def start (m : Memory) (request : Module) (input : List Byte) : Switch where
  mem := m
  pc := .ofRequest request m.currModule
  input := input

/-- `handleMessage` has returned, or an exception has ended it. -/
def Ended (s : Switch) : Prop := s.pc = .idle ∨ s.pc = .dead

instance (s : Switch) : Decidable s.Ended := inferInstanceAs (Decidable (_ ∨ _))

/-- The next operation.  Every write succeeds and a read at the end of the input gives `-1`. -/
def step (o : Surroundings) (s : Switch) : Option Switch :=
  -- `FrameModule.stop` calls `frameView.stop()` before `frameTask.stop()`
  if s.pc = .idle ∨ (s.pc = .stopTask ∧ o.joins = false) then none
  else
    match moduleOp s.mem.frame.socketPort s.pc with
    | .read k =>
      match s.input with
      | b :: rest =>
        some { s with input := rest, pc := k (.byte b), trace := s.trace ++ [.read b] }
      | [] => some { s with pc := k .eof }
    | .write b k => some { s with pc := k true, trace := s.trace ++ [.wrote b] }
    | .receive _ k => o.packet.map fun data => { s with pc := k data }
    | .act f => (f o.env s.mem).map fun r => { s with mem := r.1, pc := r.2 }
    | _ => none

/-- The new module is reported only after an `ACK` that came after the request for it. -/
def Reports (m : Memory) (request : Module) (s : Switch) : Prop :=
  s.mem.uiQueue = m.uiQueue ∨
    (s.mem.uiQueue = m.uiQueue ++ [request] ∧
      List.Sublist [.wrote (moduleByte request), .read ack] s.trace)

/-- **A switch ends when the server hangs up**, and reports no module without an `ACK`. -/
structure EndsWell (o : Surroundings) (m : Memory) (request : Module) (input : List Byte) :
    Prop where
  ends : Inevitable (fun s t => step o s = some t) Ended (start m request input)
  reports : ∀ n s, Path (fun s t => step o s = some t) n (start m request input) s →
    s.Reports m request

end Switch

/-! ### The replies a request waits for -/

/-- What is left after the first `ACK`. -/
def afterAck (input : List Byte) : List Byte := (input.dropWhile (· ≠ ack)).tail

/-- The port that `FrameModule.init` reads cannot be sent to, or a datagram comes. -/
def PortAnswered (packet : Option (List Byte)) (port : JInt) : Prop :=
  validPort port = true → packet.isSome = true

/-- The first `ACK` or `REJECT` is a `REJECT`, or finds a `FrameModule` that runs, or the port
after it is answered. -/
def FrameAnswered (packet : Option (List Byte)) (running : Bool) (input : List Byte) : Prop :=
  match input.dropWhile fun b => b ≠ ack ∧ b ≠ reject with
  | [] => False
  | b :: rest => b = reject ∨ running = true ∨ PortAnswered packet (readIntIn rest).1

/-- The input holds every reply that the request waits for, and a `FrameThread` that is joined
ends. -/
def Answered (o : Surroundings) (m : Memory) (request : Module) (input : List Byte) : Prop :=
  match request, m.currModule with
  | .input, .frame =>
    (m.frame.running = true → o.joins = true) ∧
      (2 ≤ input.count ack ∨ (m.frame.running = true ∧ m.frame.frameTask = none))
  | .input, .exit => ack ∈ input
  | .frame, .input => FrameAnswered o.packet m.frame.running (afterAck input)
  | .frame, .exit => FrameAnswered o.packet m.frame.running input
  | _, _ => True

section

variable {packet : Option (List Byte)} {running : Bool} {b : Byte} {rest : List Byte}

@[simp] theorem afterAck_ack : afterAck (ack :: rest) = rest := by
  simp [afterAck]

theorem afterAck_cons (hb : b ≠ ack) : afterAck (b :: rest) = afterAck rest := by
  simp [afterAck, hb]

theorem two_le_count_ack : 2 ≤ (ack :: rest).count ack ↔ ack ∈ rest := by
  rw [List.count_cons_self, Nat.succ_le_succ_iff, List.one_le_count_iff]

theorem frameAnswered_ack : FrameAnswered packet running (ack :: rest) ↔
    running = true ∨ PortAnswered packet (readIntIn rest).1 := by
  have hne : ack ≠ reject := by decide
  simp [FrameAnswered, hne]

theorem frameAnswered_reject : FrameAnswered packet running (reject :: rest) := by
  simp [FrameAnswered]

theorem frameAnswered_cons (hack : b ≠ ack) (hreject : b ≠ reject) :
    FrameAnswered packet running (b :: rest) ↔ FrameAnswered packet running rest := by
  simp [FrameAnswered, hack, hreject]

end

/-! ### From where the switch ends -/

/-- What `readInt(InputStream)` gets from its last `n` reads. -/
def readRest : Nat → List Byte → List JInt
  | 0, _ => []
  | n + 1, stream => (read stream).1 :: readRest n (read stream).2

/-- `FrameModule.init` returns or throws from here. -/
def InitPc.Ends (packet : Option (List Byte)) (running : Bool) (input : List Byte) :
    InitPc → Prop
  | testRunning => running = true ∨ PortAnswered packet (readIntIn input).1
  | newSocket => PortAnswered packet (readIntIn input).1
  | writePort _ => PortAnswered packet (readIntIn input).1
  | readPort bs => PortAnswered packet (readIntOf (bs ++ readRest (4 - bs.length) input))
  | initFrameInput inputPort => PortAnswered packet inputPort
  | receive => packet.isSome = true
  | setDimensions _ => True
  | final => True
  | failed => True

/-- How many operations `FrameModule.init` still makes at most. -/
def InitPc.level : InitPc → Nat
  | testRunning => 21
  | newSocket => 20
  | writePort bs => 12 + bs.length
  | readPort bs => 7 + (4 - bs.length)
  | initFrameInput _ => 6
  | receive => 5
  | setDimensions _ => 4
  | final => 3
  | failed => 2

/-- How many operations there are at most before the next read of a loop. -/
def ModulePc.level : ModulePc → Nat
  | stopTest => 3
  | stopWrite => 2
  | stopTask => 1
  | inputWrite => 1
  | inputDone => 1
  | exit => 1
  | frameWrite => 1
  | init pc => pc.level
  | initDone _ => 1
  | _ => 0

/-- The request that is handled there. -/
def ModulePc.request? : ModulePc → Option Module
  | idle => none
  | stopTest => some .input
  | stopWrite => some .input
  | stopTask => some .input
  | stopWait => some .input
  | inputWrite => some .input
  | inputWait => some .input
  | inputDone => some .input
  | exit => some .frame
  | exitWait => some .frame
  | frameWrite => some .frame
  | frameWait => some .frame
  | init _ => some .frame
  | initDone _ => some .frame
  | dead => none

/-- What was written and read since the request was written. -/
def ModulePc.heard : ModulePc → List Event
  | inputWait => [.wrote moduleInput]
  | inputDone => [.wrote moduleInput, .read ack]
  | frameWait => [.wrote moduleFrame]
  | init _ => [.wrote moduleFrame, .read ack]
  | initDone _ => [.wrote moduleFrame, .read ack]
  | _ => []

namespace InitPc

variable {packet : Option (List Byte)} {running : Bool} {bs : List JInt} {r : JInt}

theorem ends_ofPortBytes (input : List Byte) (h : bs.length < 4) :
    (ofPortBytes (bs ++ [(read input).1])).Ends packet running (read input).2 ↔
      (readPort bs).Ends packet running input := by
  have hlen : (bs ++ [(read input).1]).length = bs.length + 1 := List.length_append
  obtain ⟨n, hn⟩ : ∃ n, 4 - bs.length = n + 1 := ⟨3 - bs.length, by omega⟩
  have hrest : bs ++ readRest (4 - bs.length) input =
      (bs ++ [(read input).1]) ++ readRest n (read input).2 := by
    rw [hn, readRest, List.append_assoc, List.singleton_append]
  rw [ofPortBytes]
  split_ifs with hfull
  · obtain rfl : n = 0 := by omega
    rw [readRest, List.append_nil] at hrest
    rw [Ends, Ends, hrest]
  · rw [Ends, Ends, hrest, hlen, show 4 - (bs.length + 1) = n by omega]

theorem level_ofPortBytes (h : bs.length < 4) :
    (ofPortBytes (bs ++ [r])).level < 7 + (4 - bs.length) := by
  rw [ofPortBytes]
  split_ifs with hfull
  · simp only [level]
    omega
  · simp only [level, List.length_append, List.length_singleton]
    omega

theorem length_of_ofPortBytes {bs' : List JInt} (h : bs.length < 4)
    (heq : ofPortBytes (bs ++ [r]) = readPort bs') : bs'.length < 4 := by
  have hlen : (bs ++ [r]).length = bs.length + 1 := List.length_append
  rw [ofPortBytes] at heq
  split_ifs at heq with hfull
  cases heq
  omega

end InitPc

namespace Switch

/-- `handleMessage` ends from here. -/
def Ends (o : Surroundings) (s : Switch) : Prop :=
  match s.pc with
  | .stopTest =>
    (s.mem.frame.running = true → o.joins = true) ∧
      (2 ≤ s.input.count ack ∨ (s.mem.frame.running = true ∧ s.mem.frame.frameTask = none))
  | .stopWrite =>
    o.joins = true ∧ (2 ≤ s.input.count ack ∨ s.mem.frame.frameTask = none)
  | .stopTask =>
    o.joins = true ∧ (2 ≤ s.input.count ack ∨ s.mem.frame.frameTask = none)
  | .stopWait => 2 ≤ s.input.count ack
  | .inputWrite => ack ∈ s.input
  | .inputWait => ack ∈ s.input
  | .exit => FrameAnswered o.packet s.mem.frame.running (afterAck s.input)
  | .exitWait => FrameAnswered o.packet s.mem.frame.running (afterAck s.input)
  | .frameWrite => FrameAnswered o.packet s.mem.frame.running s.input
  | .frameWait => FrameAnswered o.packet s.mem.frame.running s.input
  | .init pc => pc.Ends o.packet s.mem.frame.running s.input
  | _ => True

/-- The rest of the input first, then the way to the next read. -/
def rank (s : Switch) : Nat := 32 * s.input.length + s.pc.level

/-- A `FrameModule` that was stopped does not run, and of the four bytes of the port one is
still to be read. -/
structure Inv (s : Switch) : Prop where
  stopped : s.pc = .stopWait → s.mem.frame.running = false
  port : ∀ bs, s.pc = .init (.readPort bs) → bs.length < 4

variable {o : Surroundings} {s t : Switch}

/-- What every step does to the three. -/
structure Next (o : Surroundings) (s t : Switch) : Prop where
  inv : Inv t
  ends : t.Ends o ↔ s.Ends o
  rank : s.Ends o → t.rank < s.rank

theorem ends_start (m : Memory) (request : Module) (input : List Byte) :
    (start m request input).Ends o ↔ Answered o m request input := by
  cases request with
  | _ =>
    cases hm : m.currModule with
    | _ => simp [start, Ends, Answered, hm, ModulePc.ofRequest]

/-! ### One step -/

theorem Next.of_level {m m' : Memory} {pc pc' : ModulePc} {input : List Byte}
    {trace trace' : List Event} (hinv : Inv ⟨m', pc', input, trace'⟩)
    (hends : Ends o ⟨m', pc', input, trace'⟩ ↔ Ends o ⟨m, pc, input, trace⟩)
    (hlevel : pc'.level < pc.level) : Next o ⟨m, pc, input, trace⟩ ⟨m', pc', input, trace'⟩ :=
  ⟨hinv, hends, fun _ => Nat.add_lt_add_left hlevel _⟩

theorem Next.of_read {m : Memory} {pc pc' : ModulePc} {b : Byte} {rest : List Byte}
    {trace trace' : List Event} (hinv : Inv ⟨m, pc', rest, trace'⟩)
    (hends : Ends o ⟨m, pc', rest, trace'⟩ ↔ Ends o ⟨m, pc, b :: rest, trace⟩)
    (hlevel : pc'.level < 32) : Next o ⟨m, pc, b :: rest, trace⟩ ⟨m, pc', rest, trace'⟩ :=
  ⟨hinv, hends, fun _ => by simp only [Switch.rank, List.length_cons]; omega⟩

/-- A loop that goes round at the end of the input never ends. -/
theorem Next.of_eof {m : Memory} {pc pc' : ModulePc} {trace : List Event}
    (hinv : Inv ⟨m, pc', [], trace⟩) (hnot : ¬ Ends o ⟨m, pc, [], trace⟩)
    (hnot' : ¬ Ends o ⟨m, pc', [], trace⟩) :
    Next o ⟨m, pc, [], trace⟩ ⟨m, pc', [], trace⟩ :=
  ⟨hinv, iff_of_false hnot' hnot, fun h => absurd h hnot⟩

section

variable {m : Memory} {input : List Byte} {trace : List Event}

theorem joins_of_step (hst : step o ⟨m, .stopTask, input, trace⟩ = some t) : o.joins = true := by
  cases hjoins : o.joins with
  | true => rfl
  | false =>
    rw [step, if_pos (Or.inr ⟨rfl, hjoins⟩)] at hst
    cases hst

theorem next_stop {pc : ModulePc} (hpc : pc = .stopTest ∨ pc = .stopWrite ∨ pc = .stopTask)
    (hst : step o ⟨m, pc, input, trace⟩ = some t) :
    Next o ⟨m, pc, input, trace⟩ t := by
  rcases hpc with rfl | rfl | rfl
  · cases hrunning : m.frame.running with
    | true =>
      simp [step, moduleOp, hrunning] at hst
      cases hst
      exact .of_level ⟨nofun, nofun⟩ (by simp [Ends, hrunning]) (by decide)
    | false =>
      simp [step, moduleOp, hrunning] at hst
      cases hst
      exact .of_level ⟨fun _ => hrunning, nofun⟩ (by simp [Ends, hrunning]) (by decide)
  · cases hst
    exact .of_level ⟨nofun, nofun⟩ Iff.rfl (by decide)
  · have hjoins : o.joins = true := joins_of_step hst
    cases htask : m.frame.frameTask with
    | none =>
      simp [step, moduleOp, FrameModule.endStop, htask, hjoins] at hst
      cases hst
      exact .of_level ⟨nofun, nofun⟩ (by simp [Ends, htask, hjoins]) (by decide)
    | some i =>
      simp [step, moduleOp, FrameModule.endStop, htask, hjoins] at hst
      cases hst
      exact .of_level ⟨fun _ => rfl, nofun⟩ (by simp [Ends, htask, hjoins]) (by decide)

/-- A loop that reads until an `ACK` comes and then goes on at `onAck`; every other byte and the
end of the input take it round by `again`. -/
structure AckLoop (o : Surroundings) (m : Memory) (pc again onAck : ModulePc) : Prop where
  eof : ∀ trace, step o ⟨m, pc, [], trace⟩ = some ⟨m, again, [], trace⟩
  byte : ∀ b rest trace, step o ⟨m, pc, b :: rest, trace⟩ =
    some ⟨m, if b = ack then onAck else again, rest, trace ++ [.read b]⟩
  inv : ∀ input trace, Inv ⟨m, again, input, trace⟩ ∧ Inv ⟨m, onAck, input, trace⟩
  level : again.level < 32 ∧ onAck.level < 32
  never : ∀ trace, ¬ Ends o ⟨m, pc, [], trace⟩ ∧ ¬ Ends o ⟨m, again, [], trace⟩
  acked : ∀ rest trace trace',
    Ends o ⟨m, onAck, rest, trace'⟩ ↔ Ends o ⟨m, pc, ack :: rest, trace⟩
  other : ∀ b rest trace trace', b ≠ ack →
    (Ends o ⟨m, again, rest, trace'⟩ ↔ Ends o ⟨m, pc, b :: rest, trace⟩)

theorem AckLoop.next {pc again onAck : ModulePc} (h : AckLoop o m pc again onAck)
    (hst : step o ⟨m, pc, input, trace⟩ = some t) : Next o ⟨m, pc, input, trace⟩ t := by
  rcases input with - | ⟨b, rest⟩
  · rw [h.eof] at hst
    cases hst
    exact .of_eof (h.inv _ _).1 (h.never trace).1 (h.never trace).2
  · rw [h.byte] at hst
    cases hst
    by_cases hb : b = ack
    · subst hb
      rw [if_pos rfl]
      exact .of_read (h.inv _ _).2 (h.acked _ _ _) h.level.2
    · rw [if_neg hb]
      exact .of_read (h.inv _ _).1 (h.other _ _ _ _ hb) h.level.1

theorem stopLoop (hrunning : m.frame.running = false) :
    AckLoop o m .stopWait .stopTest .inputWrite where
  eof _ := rfl
  byte _ _ _ := rfl
  inv _ _ := ⟨⟨nofun, nofun⟩, ⟨nofun, nofun⟩⟩
  level := by decide
  never _ := by simp [Ends, hrunning]
  acked _ _ _ := two_le_count_ack.symm
  other b rest _ _ hb := by simp [Ends, hrunning, hb]

theorem inputLoop : AckLoop o m .inputWait .inputWrite .inputDone where
  eof _ := rfl
  byte _ _ _ := rfl
  inv _ _ := ⟨⟨nofun, nofun⟩, ⟨nofun, nofun⟩⟩
  level := by decide
  never _ := by simp [Ends]
  acked _ _ _ := by simp [Ends]
  other b rest _ _ hb := by simp [Ends, Ne.symm hb]

theorem exitLoop : AckLoop o m .exitWait .exit .frameWrite where
  eof _ := rfl
  byte _ _ _ := rfl
  inv _ _ := ⟨⟨nofun, nofun⟩, ⟨nofun, nofun⟩⟩
  level := by decide
  never _ := ⟨id, id⟩
  acked _ _ _ := by simp [Ends]
  other b rest _ _ hb := by simp [Ends, afterAck_cons hb]

theorem next_frameWait (hst : step o ⟨m, .frameWait, input, trace⟩ = some t) :
    Next o ⟨m, .frameWait, input, trace⟩ t := by
  rcases input with - | ⟨b, rest⟩
  · cases hst
    exact .of_eof ⟨nofun, nofun⟩ id id
  · cases hst
    dsimp only
    by_cases hb : b = ack
    · subst hb
      rw [if_pos rfl]
      exact .of_read ⟨nofun, nofun⟩ frameAnswered_ack.symm (by decide)
    · rw [if_neg hb]
      by_cases hr : b = reject
      · subst hr
        rw [if_pos rfl]
        exact .of_read ⟨nofun, nofun⟩ (iff_of_true trivial frameAnswered_reject) (by decide)
      · rw [if_neg hr]
        exact .of_read ⟨nofun, nofun⟩ (frameAnswered_cons hb hr).symm (by decide)

theorem next_readPort {bs : List JInt} (hi : Inv ⟨m, .init (.readPort bs), input, trace⟩)
    (hst : step o ⟨m, .init (.readPort bs), input, trace⟩ = some t) :
    Next o ⟨m, .init (.readPort bs), input, trace⟩ t := by
  have hlt : bs.length < 4 := hi.port bs rfl
  have hinv : ∀ (r : JInt) (input' : List Byte) (trace' : List Event),
      Inv ⟨m, .init (.ofPortBytes (bs ++ [r])), input', trace'⟩ := fun r _ _ =>
    ⟨nofun, fun bs' hbs => InitPc.length_of_ofPortBytes hlt (ModulePc.init.inj hbs)⟩
  rcases input with - | ⟨b, rest⟩
  · cases hst
    exact .of_level (hinv _ _ _) (InitPc.ends_ofPortBytes [] hlt)
      (InitPc.level_ofPortBytes hlt)
  · cases hst
    refine .of_read (hinv _ _ _) (InitPc.ends_ofPortBytes (b :: rest) hlt) ?_
    have := InitPc.level_ofPortBytes (r := inRead (some b)) hlt
    exact this.trans (by omega)

theorem next_init {pc : InitPc} (hi : Inv ⟨m, .init pc, input, trace⟩)
    (hst : step o ⟨m, .init pc, input, trace⟩ = some t) :
    Next o ⟨m, .init pc, input, trace⟩ t := by
  cases pc with
  | testRunning =>
    cases hrunning : m.frame.running with
    | true =>
      simp [step, moduleOp, initOp, hrunning] at hst
      cases hst
      exact .of_level ⟨nofun, nofun⟩ (by simp [Ends, InitPc.Ends, hrunning]) (by decide)
    | false =>
      simp [step, moduleOp, initOp, hrunning] at hst
      cases hst
      exact .of_level ⟨nofun, nofun⟩ (by simp [Ends, InitPc.Ends, hrunning]) (by decide)
  | newSocket =>
    cases hst
    exact .of_level ⟨nofun, nofun⟩ Iff.rfl (by decide : 16 < 20)
  | writePort bs =>
    cases bs with
    | nil =>
      cases hst
      refine .of_level ⟨nofun, fun bs hbs => ?_⟩ Iff.rfl (by decide : 11 < 12)
      cases hbs
      decide
    | cons b bs =>
      cases hst
      exact .of_level ⟨nofun, nofun⟩ Iff.rfl (Nat.lt_succ_self _)
  | readPort bs => exact next_readPort hi hst
  | initFrameInput inputPort =>
    cases hport : validPort inputPort with
    | true =>
      simp [step, moduleOp, initOp, hport] at hst
      cases hst
      exact .of_level ⟨nofun, nofun⟩ (by simp [Ends, InitPc.Ends, PortAnswered, hport])
        (by decide : 5 < 6)
    | false =>
      simp [step, moduleOp, initOp, hport] at hst
      cases hst
      exact .of_level ⟨nofun, nofun⟩ (by simp [Ends, InitPc.Ends, PortAnswered, hport])
        (by decide : 0 < 6)
  | receive =>
    obtain ⟨data, hdata, rfl⟩ := Option.map_eq_some_iff.mp hst
    exact .of_level ⟨nofun, nofun⟩ (by simp [Ends, InitPc.Ends, hdata]) (by decide : 4 < 5)
  | setDimensions data =>
    cases hst
    exact .of_level ⟨nofun, nofun⟩ Iff.rfl (by decide : 3 < 4)
  | final =>
    rcases input with - | ⟨b, rest⟩
    · cases hst
      exact .of_level ⟨nofun, nofun⟩ Iff.rfl (by decide : 1 < 3)
    · cases hst
      exact .of_read ⟨nofun, nofun⟩ Iff.rfl (by decide : 1 < 32)
  | failed =>
    cases hst
    exact .of_level ⟨nofun, nofun⟩ Iff.rfl (by decide : 1 < 2)

end

theorem Inv.next (hi : Inv s) (hst : step o s = some t) : Next o s t := by
  obtain ⟨m, pc, input, trace⟩ := s
  cases pc with
  | idle => cases hst
  | stopTest => exact next_stop (Or.inl rfl) hst
  | stopWrite => exact next_stop (Or.inr (Or.inl rfl)) hst
  | stopTask => exact next_stop (Or.inr (Or.inr rfl)) hst
  | stopWait => exact (stopLoop (hi.stopped rfl)).next hst
  | inputWait => exact inputLoop.next hst
  | exitWait => exact exitLoop.next hst
  | frameWait => exact next_frameWait hst
  | inputWrite | inputDone | exit | frameWrite =>
    cases hst
    exact .of_level ⟨nofun, nofun⟩ Iff.rfl (by decide : 0 < 1)
  | init pc => exact next_init hi hst
  | initDone ok =>
    cases hst
    exact .of_level ⟨nofun, nofun⟩ Iff.rfl (by decide : 0 < 1)
  | dead => cases hst

/-- Only the join and the wait for a datagram can block. -/
theorem exists_step (hw : s.Ends o) (hnot : ¬ s.Ended) : ∃ t, step o s = some t := by
  obtain ⟨m, pc, input, trace⟩ := s
  cases pc with
  | idle => exact absurd (Or.inl rfl) hnot
  | dead => exact absurd (Or.inr rfl) hnot
  | stopWait | inputWait | exitWait | frameWait =>
    cases input
    · exact ⟨_, rfl⟩
    · exact ⟨_, rfl⟩
  | stopTask => exact ⟨_, by rw [step, if_neg (by simp [hw.1])]; rfl⟩
  | stopTest | stopWrite | inputWrite | inputDone | exit | frameWrite | initDone => exact ⟨_, rfl⟩
  | init pc =>
    cases pc with
    | testRunning =>
      cases hrunning : m.frame.running
      · simp [step, moduleOp, initOp, hrunning]
      · simp [step, moduleOp, initOp, hrunning]
    | initFrameInput inputPort =>
      cases hport : validPort inputPort
      · simp [step, moduleOp, initOp, hport]
      · simp [step, moduleOp, initOp, hport]
    | writePort bs =>
      cases bs
      · exact ⟨_, rfl⟩
      · exact ⟨_, rfl⟩
    | readPort | final =>
      cases input
      · exact ⟨_, rfl⟩
      · exact ⟨_, rfl⟩
    | receive =>
      obtain ⟨data, hdata⟩ := Option.isSome_iff_exists.mp hw
      exact ⟨_, by rw [step, hdata]; rfl⟩
    | newSocket | setDimensions | failed => exact ⟨_, rfl⟩

theorem Ended.ends (h : s.Ended) : s.Ends o := by
  rcases h with h | h
  · simp only [Ends, h]
  · simp only [Ends, h]

theorem inv_start (m : Memory) (request : Module) (input : List Byte) :
    Inv (start m request input) := by
  refine ⟨fun h => ?_, fun _ h => ?_⟩
  · cases request with
    | _ =>
      cases hm : m.currModule with
      | _ => simp [start, ModulePc.ofRequest, hm] at h
  · cases request with
    | _ =>
      cases hm : m.currModule with
      | _ => simp [start, ModulePc.ofRequest, hm] at h

/-- **A switch ends exactly where its replies are still to come.** -/
theorem inevitable_iff (hi : Inv s) :
    Inevitable (fun s t => step o s = some t) Ended s ↔ s.Ends o := by
  constructor
  · intro h
    by_contra hnot
    obtain ⟨t, hended, -, hn⟩ := h.exists_of_invariant
      (I := fun s => Inv s ∧ ¬ s.Ends o)
      (fun s t hst hs => ⟨(hs.1.next hst).inv, mt (hs.1.next hst).ends.mp hs.2⟩) ⟨hi, hnot⟩
    exact hn hended.ends
  · intro hw
    refine Inevitable.of_rank (I := fun s => Inv s ∧ s.Ends o) rank
      (fun s hs hnot => exists_step hs.2 hnot) (fun s t hs _ hst => ?_) ⟨hi, hw⟩
    have hnext := hs.1.next hst
    exact ⟨⟨hnext.inv, hnext.ends.mpr hs.2⟩, hnext.rank hs.2⟩

/-! ### What is reported -/

/-- Between two requests nothing was posted; the request is the one the code at `pc` handles;
and `heard` was read and written. -/
structure Told (m : Memory) (request : Module) (s : Switch) : Prop where
  asked : ∀ r ∈ s.pc.request?, r = request
  heard : List.Sublist s.pc.heard s.trace
  silent : s.pc ≠ .idle → s.mem.uiQueue = m.uiQueue
  reports : s.pc = .idle → s.Reports m request

section

variable {m mem mem' : Memory} {request : Module} {pc pc' : ModulePc} {input input' : List Byte}
  {trace trace' : List Event}

theorem Told.moved (h : Told m request ⟨mem, pc, input, trace⟩) (hpc : pc ≠ .idle)
    (hqueue : mem'.uiQueue = mem.uiQueue) (hasked : ∀ r ∈ pc'.request?, r ∈ pc.request?)
    (events : List Event) (htrace : trace' = trace ++ events)
    (hheard : List.Sublist pc'.heard (pc.heard ++ events)) :
    Told m request ⟨mem', pc', input', trace'⟩ where
  asked r hr := h.asked r (hasked r hr)
  heard := by
    subst htrace
    exact hheard.trans (h.heard.append_right events)
  silent _ := hqueue.trans (h.silent hpc)
  reports _ := Or.inl (hqueue.trans (h.silent hpc))

theorem Told.posted (h : Told m request ⟨mem, pc, input, trace⟩) (hpc : pc ≠ .idle) {r : Module}
    (hr : r ∈ pc.request?) (hheard : pc.heard = [.wrote (moduleByte r), .read ack])
    (hqueue : mem'.uiQueue = mem.uiQueue ++ [r]) :
    Told m request ⟨mem', .idle, input, trace⟩ where
  asked := nofun
  heard := List.nil_sublist _
  silent hne := absurd rfl hne
  reports _ := by
    obtain rfl := h.asked r hr
    refine Or.inr ⟨?_, hheard ▸ h.heard⟩
    rw [hqueue, h.silent hpc]

theorem Told.kept (h : Told m request ⟨mem, pc, input, trace⟩) (hpc : pc ≠ .idle)
    (hqueue : mem'.uiQueue = mem.uiQueue) (hasked : ∀ r ∈ pc'.request?, r ∈ pc.request?)
    (hheard : List.Sublist pc'.heard pc.heard) : Told m request ⟨mem', pc', input', trace⟩ :=
  h.moved hpc hqueue hasked [] (List.append_nil _).symm (by rwa [List.append_nil])

theorem Told.initStep {pc : InitPc} (h : Told m request ⟨mem, .init pc, input, trace⟩)
    (hst : step o ⟨mem, .init pc, input, trace⟩ = some t) : Told m request t := by
  have hne : ModulePc.init pc ≠ .idle := nofun
  cases pc with
  | testRunning =>
    cases hrunning : mem.frame.running with
    | _ =>
      simp [step, moduleOp, initOp, hrunning] at hst
      cases hst
      exact h.kept hne rfl (fun _ hr => hr) (List.Sublist.refl _)
  | newSocket | setDimensions | failed =>
    cases hst
    exact h.kept hne rfl (fun _ hr => hr) (List.Sublist.refl _)
  | writePort bs =>
    rcases bs with - | ⟨b, bs⟩
    · cases hst
      exact h.kept hne rfl (fun _ hr => hr) (List.Sublist.refl _)
    · cases hst
      exact h.moved hne rfl (fun _ hr => hr) [.wrote b] rfl (List.sublist_append_left _ _)
  | initFrameInput inputPort =>
    cases hport : validPort inputPort with
    | false =>
      simp [step, moduleOp, initOp, hport] at hst
      cases hst
      exact h.kept hne rfl nofun (List.nil_sublist _)
    | true =>
      simp [step, moduleOp, initOp, hport] at hst
      cases hst
      exact h.kept hne rfl (fun _ hr => hr) (List.Sublist.refl _)
  | receive =>
    obtain ⟨data, -, rfl⟩ := Option.map_eq_some_iff.mp hst
    exact h.kept hne rfl (fun _ hr => hr) (List.Sublist.refl _)
  | readPort | final =>
    rcases input with - | ⟨b, rest⟩
    · cases hst
      exact h.kept hne rfl (fun _ hr => hr) (List.Sublist.refl _)
    · cases hst
      exact h.moved hne rfl (fun _ hr => hr) [.read b] rfl (List.sublist_append_left _ _)

theorem Told.step (h : Told m request ⟨mem, pc, input, trace⟩)
    (hst : Switch.step o ⟨mem, pc, input, trace⟩ = some t) : Told m request t := by
  cases pc with
  | idle | dead => cases hst
  | stopTest =>
    cases hrunning : mem.frame.running with
    | _ =>
      simp [Switch.step, moduleOp, hrunning] at hst
      cases hst
      exact h.kept nofun rfl (fun _ hr => hr) (List.nil_sublist _)
  | stopTask =>
    have hjoins := joins_of_step hst
    cases htask : mem.frame.frameTask with
    | none =>
      simp [Switch.step, moduleOp, FrameModule.endStop, htask, hjoins] at hst
      cases hst
      exact h.kept nofun rfl nofun (List.nil_sublist _)
    | some =>
      simp [Switch.step, moduleOp, FrameModule.endStop, htask, hjoins] at hst
      cases hst
      exact h.kept nofun rfl (fun _ hr => hr) (List.nil_sublist _)
  | stopWrite =>
    cases hst
    exact h.moved nofun rfl (fun _ hr => hr) [.wrote ack] rfl (List.nil_sublist _)
  | inputWrite =>
    cases hst
    exact h.moved nofun rfl (fun _ hr => hr) [.wrote moduleInput] rfl (List.Sublist.refl _)
  | frameWrite =>
    cases hst
    exact h.moved nofun rfl (fun _ hr => hr) [.wrote moduleFrame] rfl (List.Sublist.refl _)
  | exit =>
    cases hst
    exact h.kept nofun rfl (fun _ hr => hr) (List.Sublist.refl _)
  | stopWait | exitWait =>
    rcases input with - | ⟨b, rest⟩
    · cases hst
      exact h.kept nofun rfl (fun _ hr => hr) (List.Sublist.refl _)
    · cases hst
      dsimp only
      split_ifs
      · exact h.moved nofun rfl (fun _ hr => hr) [.read b] rfl (List.nil_sublist _)
      · exact h.moved nofun rfl (fun _ hr => hr) [.read b] rfl (List.nil_sublist _)
  | inputWait =>
    rcases input with - | ⟨b, rest⟩
    · cases hst
      exact h.kept nofun rfl (fun _ hr => hr) (List.nil_sublist _)
    · cases hst
      dsimp only
      split_ifs with hb
      · exact h.moved nofun rfl (fun _ hr => hr) [.read b] rfl (hb ▸ List.Sublist.refl _)
      · exact h.moved nofun rfl (fun _ hr => hr) [.read b] rfl (List.nil_sublist _)
  | frameWait =>
    rcases input with - | ⟨b, rest⟩
    · cases hst
      exact h.kept nofun rfl (fun _ hr => hr) (List.Sublist.refl _)
    · cases hst
      dsimp only
      split_ifs with hb
      · exact h.moved nofun rfl (fun _ hr => hr) [.read b] rfl (hb ▸ List.Sublist.refl _)
      · exact h.moved nofun rfl nofun [.read b] rfl (List.nil_sublist _)
      · exact h.moved nofun rfl (fun _ hr => hr) [.read b] rfl (List.sublist_append_left _ _)
  | inputDone =>
    cases hst
    exact h.posted nofun rfl rfl rfl
  | init pc => exact h.initStep hst
  | initDone ok =>
    cases ok with
    | false =>
      cases hst
      exact h.kept nofun rfl nofun (List.nil_sublist _)
    | true =>
      cases hst
      exact h.posted nofun rfl rfl rfl

end

theorem told_start (m : Memory) (request : Module) (input : List Byte) :
    Told m request (start m request input) := by
  refine ⟨fun r hr => ?_, ?_, fun _ => rfl, fun _ => Or.inl rfl⟩
  · cases request with
    | exit =>
      cases hm : m.currModule with
      | _ => simp [start, ModulePc.ofRequest, ModulePc.request?] at hr ⊢
    | input =>
      cases hm : m.currModule with
      | input => simp [start, ModulePc.ofRequest, ModulePc.request?, hm] at hr ⊢
      | _ =>
        simp [start, ModulePc.ofRequest, ModulePc.request?, hm] at hr ⊢
        exact hr.symm
    | frame =>
      cases hm : m.currModule with
      | frame => simp [start, ModulePc.ofRequest, ModulePc.request?, hm] at hr ⊢
      | _ =>
        simp [start, ModulePc.ofRequest, ModulePc.request?, hm] at hr ⊢
        exact hr.symm
  · cases request with
    | _ =>
      cases hm : m.currModule with
      | _ => simp [start, ModulePc.ofRequest, hm, ModulePc.heard]

/-- **What is reported was acknowledged**, at every moment of the switch. -/
theorem reports_of_path {m : Memory} {request : Module} {input : List Byte} {n : Nat}
    (h : Path (fun s t => step o s = some t) n (start m request input) s) :
    s.Reports m request := by
  have htold : Told m request s :=
    h.invariant (fun _ _ hst hs => hs.step hst) (told_start m request input)
  by_cases hidle : s.pc = .idle
  · exact htold.reports hidle
  · exact Or.inl (htold.silent hidle)

/-! ### The switch as a whole -/

/-- **A switch on a connection that ends.**  Whatever the server sent before it hung up and
whatever is asked for, the switch reports no module without an `ACK`, and it ends exactly if
the bytes it waits for are among those that were sent. -/
theorem endsWell_iff_answered (o : Surroundings) (m : Memory) (request : Module)
    (input : List Byte) : EndsWell o m request input ↔ Answered o m request input := by
  rw [← ends_start, ← inevitable_iff (o := o) (inv_start m request input)]
  exact ⟨fun h => h.ends, fun h => ⟨h, fun _ _ hs => reports_of_path hs⟩⟩

/-- The server hangs up before it has answered the request for the input. -/
theorem not_endsWell : ¬ ∀ (o : Surroundings) (m : Memory) (request : Module)
    (input : List Byte), EndsWell o m request input := by
  intro hall
  have hends := (inevitable_iff (inv_start {} .input [])).mp
    (hall ⟨⟨5000⟩, none, true⟩ {} .input []).ends
  exact absurd ((ends_start {} .input []).mp hends) (by simp [Answered])

end Switch

end MikaAudio.Client
