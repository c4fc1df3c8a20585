import MikaAudio.Server.Communication

/-!
# What the server takes the next byte for

The connection's thread has some fifty local states, but a client that writes a
byte has to know one thing only: what the byte will be taken for.  `Zone` is that
abstraction, `TaskPc.zone` reads it off the local state, and `Zone.next`,
`Zone.Replies` and `Zone.Moves` are the steps it allows.

The five lemmas `taskOp_read` .. `taskOp_act` connect the two: whatever operation
`CommunicationTask.run` makes, its zone goes the way the abstraction says.  The
invariants of a session are stated on zones and use these lemmas only.
-/

namespace MikaAudio.Server

open Thread

/-- What a byte from the client will be taken for, or what the server does before
it reads again. -/
inductive Zone
  /-- A module byte. -/
  | loop
  /-- The first `ACK` of `listen` comes first. -/
  | inputAck
  /-- A mode byte. -/
  | mode
  /-- A key. -/
  | key
  /-- The key is dispatched first. -/
  | press (key : JInt)
  /-- A byte of a text. -/
  | text
  /-- The last `ACK` of `listen` comes first. -/
  | inputLeave
  /-- The first `ACK` of `start` comes first. -/
  | frameAck
  /-- The `REJECT` of a second session comes first. -/
  | refused
  /-- A byte of the frame port, after those read. -/
  | port (bs : List JInt)
  /-- `init` has the frame port. -/
  | ported (framePort : JInt)
  /-- `todo` bytes of the input port are still to be written, then the result of
  `init`. -/
  | serving (todo : Nat)
  /-- The start `ACK`. -/
  | busy
  /-- The stop `ACK`. -/
  | running
  /-- The `ACK` of `MODULE_EXIT` comes first. -/
  | exitAck
  /-- Nothing is read any more. -/
  | closed
  deriving DecidableEq

/-- The zone of a local state of `listen`. -/
def ListenPc.zone : ListenPc → Zone
  | .ack => .inputAck
  | .mode => .mode
  | .modeTimeout => .mode
  | .key => .key
  | .keyTimeout => .key
  | .dispatchKey k => .press k
  | .text => .text
  | .textTimeout => .text
  | .dispatchText => .text
  | .exitAck => .inputLeave

/-- The zone of a local state of `start`. -/
def FramePc.zone : FramePc → Zone
  | .setInputModule => .frameAck
  | .testConnected => .frameAck
  | .ack => .frameAck
  | .port bs => .port bs
  | .portTimeout => .port []
  | .newFramePacket framePort => .ported framePort
  | .newInputSocket _ => .serving 4
  | .getInputPort _ => .serving 4
  | .writeInputPort _ bs => .serving bs.length
  | .metrics _ => .serving 0
  | .fillPacket _ => .serving 0
  | .sendPacket _ _ => .serving 0
  | .nativeInit _ => .serving 0
  | .newFrameTask _ => .serving 0
  | .testInstance => .serving 0
  | .initAck => .serving 0
  | .initReject => .serving 0
  | .clearConnected => .busy
  | .startWait _ => .busy
  | .startTimeout => .busy
  | .startFrameTask => .running
  | .newInputTask => .running
  | .startInputTask => .running
  | .parse => .running
  | .parseTimeout => .running
  | .stopFrameTask => .running
  | .stopInputTask => .running
  | .busyReject => .refused
  | .catchFrameTask => .closed
  | .catchInputTask => .closed

/-- The zone of a local state of `run`. -/
def TaskPc.zone : TaskPc → Zone
  | .loop => .loop
  | .module => .loop
  | .moduleTimeout => .loop
  | .exitAck => .exitAck
  | .listen pc _ => pc.zone
  | .frame pc => pc.zone
  | .closeStreams _ => .closed
  | .closeSocket => .closed
  | .remove => .closed
  | .done => .closed
  | .dead => .closed

/-! ### The steps of the abstraction -/

/-- `ofPortBytes` on zones. -/
def Zone.ofPortBytes (bs : List JInt) : Zone :=
  if bs.length = 4 then .ported (readIntOf bs) else .port bs

/-- What the server does with a byte, where it reads one. -/
def Zone.next : Zone → Byte → Option Zone
  | .loop, b =>
    some (if b = moduleExit then .exitAck else if b = moduleInput then .inputAck
      else if b = moduleFrame then .frameAck else .loop)
  | .mode, b =>
    some (if b = modeExit then .inputLeave else if b = modeKey then .key
      else if b = modeText then .text else .mode)
  | .key, b => some (.press (inRead (some b)))
  | .text, _ => some .text
  | .port bs, b => some (.ofPortBytes (bs ++ [inRead (some b)]))
  | .busy, b => some (if b = ack then .running else .busy)
  | .running, _ => some .running
  | _, _ => none

/-- The server reads, and it is no text and no stop `ACK`. -/
def Zone.waits : Zone → Bool
  | .loop => true
  | .mode => true
  | .key => true
  | .port _ => true
  | .busy => true
  | _ => false

/-- A read timeout loses the bytes of a port read so far. -/
def Zone.timeout : Zone → Zone
  | .port _ => .port []
  | z => z

/-- The replies, and where the server goes on. -/
def Zone.Replies : Zone → Byte → Zone → Prop
  | .inputAck, b, z => b = MikaAudio.ack ∧ z = .mode
  | .inputLeave, b, z => b = MikaAudio.ack ∧ z = .loop
  | .frameAck, b, z => b = MikaAudio.ack ∧ z = .port []
  | .refused, b, z => b = reject ∧ z = .loop
  | .serving (n + 1), _, z => z = .serving n
  | .serving 0, _, z => z = .busy
  | .exitAck, b, z => b = MikaAudio.ack ∧ z = .closed
  | _, _, _ => False

/-- What the server does by itself, with the keys it dispatches; it can always do
something that does not show. -/
def Zone.Moves (e : Env) (z : Zone) (ks : List JInt) (z' : Zone) : Prop :=
  (ks = [] ∧ z' = z) ∨
  match z with
  | .press k => ks = [k] ∧ z' = .mode
  | .text => ks = [] ∧ z' = .mode
  | .busy => ks = [] ∧ z' = .loop
  | .running => ks = [] ∧ z' = .loop
  | .ported p => ks = [] ∧ (z' = .serving 4 ∨ z' = .closed ∧ (e.sockets && validPort p) = false)
  | .serving _ => ks = [] ∧ z' = .closed ∧ (e.sockets && e.bitmap) = false
  | _ => False

theorem Zone.not_replies_of_waits {z z' : Zone} {b : Byte} (h : z.waits = true) :
    ¬ z.Replies b z' := by
  cases z with
  | inputAck | inputLeave | frameAck | refused | serving | exitAck => cases h
  | _ => exact id

theorem Zone.Moves.of_waits {e : Env} {z z' : Zone} {ks : List JInt} (h : z.waits = true)
    (hz : z.Moves e ks z') : ks = [] ∧ (z' = z ∨ z = .busy ∧ z' = .loop) := by
  rcases hz with ⟨rfl, rfl⟩ | hz
  · exact ⟨rfl, Or.inl rfl⟩
  · cases z with
    | press | text | ported | serving | running => cases h
    | busy => exact ⟨hz.1, Or.inr ⟨rfl, hz.2⟩⟩
    | _ => exact hz.elim

theorem Zone.Moves.stay {e : Env} (z : Zone) : Zone.Moves e z [] z := Or.inl ⟨rfl, rfl⟩

/-! ### The thread follows the abstraction -/

section Follow

variable {c : Nat} {pc : TaskPc}

theorem taskOp_read_cases {k : Read → TaskPc} (h : taskOp c pc = .read k) :
    pc = .module ∨ (∃ s, pc = .listen .mode s) ∨ (∃ s, pc = .listen .key s) ∨
      (∃ bs, pc = .frame (.port bs)) ∨ (∃ d, pc = .frame (.startWait d)) ∨
      pc = .frame .parse := by
  cases pc with
  | listen pc s =>
    cases pc with
    | mode | key =>
      cases h
      simp
    | _ => cases h
  | frame pc =>
    cases pc with
    | writeInputPort p bs =>
      cases bs
      · cases h
      · cases h
    | port | startWait | parse =>
      cases h
      simp
    | _ => cases h
  | module =>
    cases h
    simp
  | _ => cases h

theorem taskOp_read {k : Read → TaskPc} (h : taskOp c pc = .read k) :
    (∀ b, pc.zone.next b = some (k (.byte b)).zone) ∧ (k .timeout).zone = pc.zone.timeout := by
  rcases taskOp_read_cases h with rfl | ⟨s, rfl⟩ | ⟨s, rfl⟩ | ⟨bs, rfl⟩ | ⟨d, rfl⟩ | rfl
  · cases h
    refine ⟨fun b => ?_, rfl⟩
    simp only [TaskPc.zone, Zone.next, TaskPc.ofModule]
    split_ifs
    all_goals rfl
  · cases h
    refine ⟨fun b => ?_, rfl⟩
    simp only [TaskPc.zone, ListenPc.zone, Zone.next, ListenPc.ofMode]
    split_ifs
    all_goals rfl
  · cases h
    exact ⟨fun _ => rfl, rfl⟩
  · cases h
    refine ⟨fun b => ?_, rfl⟩
    simp only [TaskPc.zone, FramePc.zone, Zone.next, FramePc.ofPortBytes, Zone.ofPortBytes]
    split_ifs
    · rfl
    · rfl
  · cases h
    refine ⟨fun b => ?_, rfl⟩
    simp only [TaskPc.zone, FramePc.zone, Zone.next]
    split_ifs
    · rfl
    · rfl
  · cases h
    refine ⟨fun b => ?_, rfl⟩
    simp only [TaskPc.zone, FramePc.zone, Zone.next]
    split_ifs
    · rfl
    · rfl

theorem taskOp_readBuf {len : Nat} {k : BufRead → TaskPc} (h : taskOp c pc = .readBuf len k) :
    pc.zone = .text ∧ (∀ bs, (k (.bytes bs)).zone = .text) ∧ (k .timeout).zone = .text := by
  cases pc with
  | listen pc s =>
    cases pc with
    | text =>
      cases h
      exact ⟨rfl, fun _ => rfl, rfl⟩
    | _ => cases h
  | frame pc =>
    cases pc with
    | writeInputPort p bs =>
      cases bs
      · cases h
      · cases h
    | _ => cases h
  | _ => cases h

/-- A `0x00` after a timeout leaves the zone as it is or gives up waiting for the
start `ACK`; every other byte written is a reply of the zone. -/
theorem taskOp_write {b : Byte} {k : Bool → TaskPc} (h : taskOp c pc = .write b k) :
    if pc.isTimeout then
      (k true).zone = pc.zone ∨ pc.zone = .busy ∧ (k true).zone = .loop
    else Zone.Replies pc.zone b (k true).zone := by
  cases pc with
  | listen pc s =>
    cases pc with
    | mode | key | dispatchKey | text | dispatchText => cases h
    | _ =>
      cases h
      simp [TaskPc.isTimeout, TaskPc.zone, ListenPc.zone, Zone.Replies]
  | frame pc =>
    cases pc with
    | writeInputPort p bs =>
      cases bs with
      | nil => cases h
      | cons b bs => cases h; simp [TaskPc.isTimeout, TaskPc.zone, FramePc.zone, Zone.Replies]
    | ack | portTimeout | initAck | initReject | startTimeout | parseTimeout | busyReject =>
      cases h
      simp [TaskPc.isTimeout, TaskPc.zone, FramePc.zone, Zone.Replies]
    | _ => cases h
  | moduleTimeout | exitAck =>
    cases h
    simp [TaskPc.isTimeout, TaskPc.zone, Zone.Replies]
  | _ => cases h

theorem taskOp_send {p : JInt} {d : List Byte} {k : Bool → TaskPc}
    (h : taskOp c pc = .send p d k) : (k true).zone = pc.zone := by
  cases pc with
  | listen pc s =>
    cases pc with
    | _ => cases h
  | frame pc =>
    cases pc with
    | writeInputPort p bs =>
      cases bs
      · cases h
      · cases h
    | sendPacket p d =>
      cases h
      rfl
    | _ => cases h
  | _ => cases h

/-- What the memory must be for `start` to go its way: the connection is open and
`inputSocket` is there when its port is asked for. -/
structure Sound (c : Nat) (m : Memory) (pc : TaskPc) : Prop where
  running : m.running c = true
  connected : m.frame.connected = false
  socket : ∀ p, pc = .frame (.getInputPort p) → m.frame.inputSocket.isSome
  opened : pc.zone = .closed ∨ c ∉ m.closed

theorem Sound.of_frame {m m' : Memory} {pc' : TaskPc} (hs : Sound c m pc)
    (hz : pc.zone ≠ .closed) (hr : m'.running = m.running) (hcl : m'.closed = m.closed)
    (hc : m'.frame.connected = false)
    (hg : ∀ p, pc' = .frame (.getInputPort p) → m'.frame.inputSocket.isSome) :
    Sound c m' pc' :=
  ⟨by rw [hr]; exact hs.running, hc, hg,
    Or.inr (by rw [hcl]; exact hs.opened.resolve_left hz)⟩

theorem Sound.of_closed {m m' : Memory} {pc' : TaskPc} (hs : Sound c m pc)
    (hz : pc'.zone = .closed) (hr : m'.running = m.running)
    (hc : m'.frame.connected = m.frame.connected) : Sound c m' pc' := by
  refine ⟨by rw [hr]; exact hs.running, by rw [hc]; exact hs.connected, ?_, Or.inl hz⟩
  intro p hp
  rw [hp] at hz
  cases hz

/-- Blocking operations leave the memory alone and never come to
`getLocalPort()`. -/
theorem Sound.of_blocking {m : Memory} {pc' : TaskPc} (hs : Sound c m pc)
    (hz : pc.zone ≠ .closed) (hg : ∀ p, pc' ≠ .frame (.getInputPort p)) : Sound c m pc' :=
  hs.of_frame hz rfl rfl hs.connected (fun p hp => absurd hp (hg p))

theorem Sound.read {m : Memory} {k : Read → TaskPc} (hs : Sound c m pc)
    (h : taskOp c pc = .read k) (r : Read) : Sound c m (k r) := by
  rcases taskOp_read_cases h with rfl | ⟨s, rfl⟩ | ⟨s, rfl⟩ | ⟨bs, rfl⟩ | ⟨d, rfl⟩ | rfl
  · cases h
    refine hs.of_blocking (by simp [TaskPc.zone]) ?_
    cases r with
    | byte b =>
      simp only [TaskPc.ofModule]
      split_ifs
      all_goals simp
    | _ => simp
  · cases h
    refine hs.of_blocking (by simp [TaskPc.zone, ListenPc.zone]) ?_
    cases r with
    | _ => simp
  · cases h
    refine hs.of_blocking (by simp [TaskPc.zone, ListenPc.zone]) ?_
    cases r with
    | _ => simp
  · cases h
    refine hs.of_blocking (by simp [TaskPc.zone, FramePc.zone]) ?_
    cases r with
    | byte | eof =>
      simp only [FramePc.ofPortBytes]
      split_ifs
      · simp
      · simp
    | _ => simp
  · cases h
    refine hs.of_blocking (by simp [TaskPc.zone, FramePc.zone]) ?_
    cases r with
    | byte b =>
      dsimp only
      split_ifs
      · simp
      · simp
    | _ => simp
  · cases h
    refine hs.of_blocking (by simp [TaskPc.zone, FramePc.zone]) ?_
    cases r with
    | byte b =>
      dsimp only
      split_ifs
      · simp
      · simp
    | _ => simp

theorem Sound.readBuf {m : Memory} {len : Nat} {k : BufRead → TaskPc} (hs : Sound c m pc)
    (h : taskOp c pc = .readBuf len k) (r : BufRead) : Sound c m (k r) := by
  cases pc with
  | listen pc s =>
    cases pc with
    | text =>
      cases h
      refine hs.of_blocking (by simp [TaskPc.zone, ListenPc.zone]) ?_
      cases r with
      | _ => simp
    | _ => cases h
  | frame pc =>
    cases pc with
    | writeInputPort p bs =>
      cases bs
      · cases h
      · cases h
    | _ => cases h
  | _ => cases h

theorem Sound.write {m : Memory} {b : Byte} {k : Bool → TaskPc} (hs : Sound c m pc)
    (h : taskOp c pc = .write b k) (ok : Bool) : Sound c m (k ok) := by
  cases pc with
  | listen pc s =>
    cases pc with
    | mode | key | dispatchKey | text | dispatchText => cases h
    | _ =>
      cases h
      refine hs.of_blocking (by simp [TaskPc.zone, ListenPc.zone]) ?_
      cases ok
      · simp
      · simp
  | frame pc =>
    cases pc with
    | writeInputPort p bs =>
      cases bs with
      | nil => cases h
      | cons b bs =>
        cases h
        refine hs.of_blocking (by simp [TaskPc.zone, FramePc.zone]) ?_
        cases ok
        · simp
        · simp
    | ack | portTimeout | initAck | initReject | startTimeout | parseTimeout | busyReject =>
      cases h
      refine hs.of_blocking (by simp [TaskPc.zone, FramePc.zone]) ?_
      cases ok
      · simp
      · simp
    | _ => cases h
  | moduleTimeout | exitAck =>
    cases h
    refine hs.of_blocking (by simp [TaskPc.zone]) ?_
    cases ok
    · simp
    · simp
  | _ => cases h

theorem Sound.send {m : Memory} {p : JInt} {d : List Byte} {k : Bool → TaskPc}
    (hs : Sound c m pc) (h : taskOp c pc = .send p d k) (ok : Bool) : Sound c m (k ok) := by
  cases pc with
  | listen pc s =>
    cases pc with
    | _ => cases h
  | frame pc =>
    cases pc with
    | writeInputPort p bs =>
      cases bs
      · cases h
      · cases h
    | sendPacket =>
      cases h
      refine hs.of_blocking (by simp [TaskPc.zone, FramePc.zone]) ?_
      cases ok
      · simp
      · simp
    | _ => cases h
  | _ => cases h

theorem startOp_act {pc : FramePc} {f : Env → Memory → Option (Memory × TaskPc)} {e : Env}
    {m m' : Memory} {pc' : TaskPc} (h : taskOp c (.frame pc) = .act f)
    (hf : f e m = some (m', pc')) (hs : Sound c m (.frame pc)) :
    Sound c m' pc' ∧ Zone.Moves e pc.zone [] pc'.zone ∧ m'.keys = m.keys := by
  have hc := hs.connected
  have hstep : ∀ {m' : Memory} {pc' : TaskPc}, pc.zone ≠ .closed → m'.running = m.running →
      m'.closed = m.closed → m'.frame.connected = false →
      (∀ p, pc' ≠ .frame (.getInputPort p)) → Sound c m' pc' :=
    fun hz hr hcl hc hg => hs.of_frame hz hr hcl hc (fun p hp => absurd hp (hg p))
  cases pc with
  | testConnected =>
    cases h
    rw [Option.some.injEq, Prod.mk.injEq, hc] at hf
    obtain ⟨rfl, rfl⟩ := hf
    exact ⟨hstep (by simp [FramePc.zone]) rfl rfl hc (by simp), .stay _, rfl⟩
  | newFramePacket p =>
    cases h
    by_cases hsock : e.sockets = true
    · simp only [hsock, if_true, Option.some.injEq, Prod.mk.injEq] at hf
      obtain ⟨rfl, rfl⟩ := hf
      by_cases hp : validPort p = true
      · rw [if_pos hp]
        exact ⟨hstep (by simp [FramePc.zone]) rfl rfl hc (by simp), Or.inr ⟨rfl, Or.inl rfl⟩, rfl⟩
      · rw [if_neg hp]
        exact ⟨hs.of_closed rfl rfl rfl, Or.inr ⟨rfl, Or.inr ⟨rfl, by simp [hp]⟩⟩,
          rfl⟩
    · simp only [hsock] at hf
      cases hf
      exact ⟨hs.of_closed rfl rfl rfl, Or.inr ⟨rfl, Or.inr ⟨rfl, by simp [hsock]⟩⟩, rfl⟩
  | newInputSocket p =>
    cases h
    by_cases hsock : e.sockets = true
    · simp only [hsock] at hf
      cases hf
      exact ⟨hs.of_frame (by simp [TaskPc.zone, FramePc.zone]) rfl rfl hc (fun _ _ => rfl),
        .stay _, rfl⟩
    · simp only [hsock] at hf
      cases hf
      exact ⟨hs.of_closed rfl rfl rfl, Or.inr ⟨rfl, rfl, by simp [hsock]⟩, rfl⟩
  | getInputPort p =>
    cases h
    obtain ⟨socket, hsocket⟩ := Option.isSome_iff_exists.mp (hs.socket p rfl)
    rw [Option.some.injEq, Prod.mk.injEq, hsocket] at hf
    obtain ⟨rfl, rfl⟩ := hf
    exact ⟨hstep (by simp [FramePc.zone]) rfl rfl hc (by simp), .stay _, rfl⟩
  | writeInputPort p bs =>
    cases bs with
    | cons b bs => cases h
    | nil =>
      cases h; cases hf
      exact ⟨hstep (by simp [FramePc.zone]) rfl rfl hc (by simp), .stay _, rfl⟩
  | newFrameTask p =>
    cases h
    by_cases hbm : e.bitmap = true
    · simp only [hbm] at hf
      cases hf
      exact ⟨hstep (by simp [FramePc.zone]) rfl rfl hc (by simp), .stay _, rfl⟩
    · simp only [hbm] at hf
      cases hf
      exact ⟨hs.of_closed rfl rfl rfl, Or.inr ⟨rfl, rfl, by simp [hbm]⟩, rfl⟩
  | testInstance =>
    cases h; cases hf
    split_ifs
    · exact ⟨hstep (by simp [FramePc.zone]) rfl rfl hc (by simp), .stay _, rfl⟩
    · exact ⟨hstep (by simp [FramePc.zone]) rfl rfl hc (by simp), .stay _, rfl⟩
  | clearConnected =>
    cases h; cases hf
    exact ⟨hstep (by simp [FramePc.zone]) rfl rfl rfl (by simp), Or.inr ⟨rfl, rfl⟩, rfl⟩
  | stopInputTask =>
    cases h; cases hf
    exact ⟨hstep (by simp [FramePc.zone]) rfl rfl (by simpa [Memory.onFrame] using hc) (by simp),
      Or.inr ⟨rfl, rfl⟩, rfl⟩
  | catchFrameTask =>
    cases h; cases hf
    exact ⟨hs.of_closed rfl rfl (by simp [Memory.onFrame]), .stay _, rfl⟩
  | catchInputTask =>
    cases h; cases hf
    exact ⟨hs.of_closed rfl rfl (by simp [Memory.onFrame]), .stay _, rfl⟩
  | setInputModule | metrics | fillPacket | nativeInit | startFrameTask | newInputTask |
    startInputTask | stopFrameTask =>
    cases h
    cases hf
    exact ⟨hstep (by simp [FramePc.zone]) rfl rfl (by simpa [Memory.onFrame] using hc) (by simp),
      .stay _, rfl⟩
  | _ => cases h

theorem taskOp_act {f : Env → Memory → Option (Memory × TaskPc)} {e : Env} {m m' : Memory}
    {pc' : TaskPc} (h : taskOp c pc = .act f) (hf : f e m = some (m', pc'))
    (hs : Sound c m pc) :
    Sound c m' pc' ∧ ∃ ks, Zone.Moves e pc.zone ks pc'.zone ∧ m'.keys = m.keys ++ ks := by
  have hkeys : m.keys = m.keys ++ [] := (List.append_nil _).symm
  cases pc with
  | loop =>
    cases h
    rw [Option.some.injEq, Prod.mk.injEq, if_pos hs.running] at hf
    obtain ⟨rfl, rfl⟩ := hf
    exact ⟨hs.of_frame (by simp [TaskPc.zone]) rfl rfl hs.connected (by simp), [], .stay _, hkeys⟩
  | listen pc s =>
    cases pc with
    | dispatchKey k =>
      cases h; cases hf
      exact ⟨hs.of_frame (by simp [TaskPc.zone, ListenPc.zone]) rfl rfl hs.connected (by simp),
        [k], Or.inr ⟨rfl, rfl⟩, Memory.keys_post_key m k⟩
    | dispatchText =>
      cases h; cases hf
      exact ⟨hs.of_frame (by simp [TaskPc.zone, ListenPc.zone]) rfl rfl hs.connected (by simp),
        [], Or.inr ⟨rfl, rfl⟩, by simp [Memory.keys, Memory.post, InputEvent.key?]⟩
    | _ => cases h
  | frame pc =>
    obtain ⟨hs', hm, hk⟩ := startOp_act h hf hs
    exact ⟨hs', [], hm, by rw [hk, List.append_nil]⟩
  | closeStreams escaping =>
    cases h; cases hf
    cases escaping
    · exact ⟨hs.of_closed rfl rfl rfl, [], .stay _, hkeys⟩
    · exact ⟨hs.of_closed rfl rfl rfl, [], .stay _, hkeys⟩
  | closeSocket => cases h; cases hf; exact ⟨hs.of_closed rfl rfl rfl, [], .stay _, hkeys⟩
  | remove => cases h; cases hf; exact ⟨hs.of_closed rfl rfl rfl, [], .stay _, hkeys⟩
  | _ => cases h

/-! ### Without timeouts -/

theorem isTimeout_read {k : Read → TaskPc} (h : taskOp c pc = .read k) (b : Byte) :
    (k (.byte b)).isTimeout = false := by
  rcases taskOp_read_cases h with rfl | ⟨s, rfl⟩ | ⟨s, rfl⟩ | ⟨bs, rfl⟩ | ⟨d, rfl⟩ | rfl
  · cases h
    simp only [TaskPc.ofModule]
    split_ifs
    all_goals rfl
  · cases h
    simp only [ListenPc.ofMode]
    split_ifs
    all_goals rfl
  · cases h
    rfl
  · cases h
    simp only [FramePc.ofPortBytes]
    split_ifs
    · rfl
    · rfl
  · cases h
    dsimp only
    split_ifs
    · rfl
    · rfl
  · cases h
    dsimp only
    split_ifs
    · rfl
    · rfl

theorem isTimeout_readBuf {len : Nat} {k : BufRead → TaskPc}
    (h : taskOp c pc = .readBuf len k) (bs : List Byte) : (k (.bytes bs)).isTimeout = false := by
  cases pc with
  | listen pc s =>
    cases pc with
    | text =>
      cases h
      rfl
    | _ => cases h
  | frame pc =>
    cases pc with
    | writeInputPort p bs =>
      cases bs
      · cases h
      · cases h
    | _ => cases h
  | _ => cases h

theorem isTimeout_write {b : Byte} {k : Bool → TaskPc} (h : taskOp c pc = .write b k) :
    (k true).isTimeout = false := by
  cases pc with
  | listen pc s =>
    cases pc with
    | mode | key | dispatchKey | text | dispatchText => cases h
    | _ =>
      cases h
      rfl
  | frame pc =>
    cases pc with
    | writeInputPort p bs =>
      cases bs with
      | nil => cases h
      | cons b bs => cases h; rfl
    | ack | portTimeout | initAck | initReject | startTimeout | parseTimeout | busyReject =>
      cases h
      rfl
    | _ => cases h
  | moduleTimeout | exitAck =>
    cases h
    rfl
  | _ => cases h

theorem isTimeout_send {p : JInt} {d : List Byte} {k : Bool → TaskPc}
    (h : taskOp c pc = .send p d k) : (k true).isTimeout = false := by
  cases pc with
  | listen pc s =>
    cases pc with
    | _ => cases h
  | frame pc =>
    cases pc with
    | writeInputPort p bs =>
      cases bs
      · cases h
      · cases h
    | sendPacket p d => cases h; rfl
    | _ => cases h
  | _ => cases h

theorem isTimeout_act {f : Env → Memory → Option (Memory × TaskPc)} {e : Env} {m m' : Memory}
    {pc' : TaskPc} (h : taskOp c pc = .act f) (hf : f e m = some (m', pc')) :
    pc'.isTimeout = false := by
  cases pc with
  | listen pc s =>
    cases pc with
    | dispatchKey k => cases h; cases hf; rfl
    | dispatchText => cases h; cases hf; rfl
    | _ => cases h
  | frame pc =>
    cases pc with
    | writeInputPort p bs =>
      cases bs with
      | nil => cases h; cases hf; rfl
      | cons b bs => cases h
    | getInputPort =>
      cases h
      cases hf
      cases m.frame.inputSocket with
      | some => rfl
      | none => rfl
    | testConnected | testInstance =>
      cases h
      cases hf
      split_ifs
      · rfl
      · rfl
    | newInputSocket | newFrameTask =>
      cases h
      simp only at hf
      split_ifs at hf
      · cases hf
        rfl
      · cases hf
        rfl
    | ack | port | portTimeout | sendPacket | initAck | initReject | startWait | startTimeout |
      parse | parseTimeout | busyReject =>
      cases h
    | newFramePacket =>
      cases h
      simp only at hf
      split_ifs at hf
      all_goals
        cases hf
        rfl
    | _ =>
      cases h
      simp only at hf
      cases hf
      rfl
  | loop | closeStreams =>
    cases h
    cases hf
    split_ifs
    · rfl
    · rfl
  | closeSocket | remove =>
    cases h
    cases hf
    rfl
  | _ => cases h
end Follow

end MikaAudio.Server
