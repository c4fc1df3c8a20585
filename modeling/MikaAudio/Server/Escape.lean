import MikaAudio.Server.Host
import MikaAudio.Server.Zone
import MikaAudio.Lib.Interleave

/-!
# Exceptions that escape `CommunicationTask.run`

Two things a client sends can end the thread of its connection by an exception nobody
catches: four bytes that are no port for `DatagramPacket`, and bytes that are no start
`ACK`, each of which is one more call of the private `start`.  `Harmless` excludes just
these two, and then the loop of `run` is only left the three ways it should be, after
which the socket is closed and the connection removed.
-/

namespace MikaAudio.Server

open Thread Interleave

/-- The loop is left, or an `IOException` is on its way out of `start`. -/
def TaskPc.ends : TaskPc → Bool
  | .frame .catchFrameTask => true
  | .frame .catchInputTask => true
  | pc => pc.left

/-- The operations up to the end of `run`. -/
def TaskPc.toEnd : TaskPc → Nat
  | .frame .catchFrameTask => 5
  | .frame .catchInputTask => 4
  | .closeStreams _ => 3
  | .closeSocket => 2
  | .remove => 1
  | _ => 0

/-- The port is one, and the call fits on the stack. -/
def TaskPc.InBounds (stack : Nat) : TaskPc → Prop
  | .frame (.newFramePacket framePort) => validPort framePort = true
  | .frame (.startWait depth) => depth ≤ stack
  | _ => True

theorem TaskPc.InBounds.onStack {stack : Nat} {pc : TaskPc} (h : pc.InBounds stack) :
    pc.onStack stack = pc := by
  unfold TaskPc.onStack
  split
  · exact if_pos h
  · rfl

namespace Host

/-! ### What a client must not send -/

/-- When the fourth byte of a frame port is read, the four of them make a port. -/
def portValid : TaskPc → Reply Env → Bool
  | .frame (.port bs), .read (.byte b) =>
    decide (bs.length ≠ 3) || validPort (readIntOf (bs ++ [inRead (some b)]))
  | .frame (.port bs), .read .eof =>
    decide (bs.length ≠ 3) || validPort (readIntOf (bs ++ [inRead none]))
  | _, _ => true

/-- The call of the private `start` that anything but an `ACK` makes fits on the stack. -/
def fits (stack : Nat) : TaskPc → Reply Env → Bool
  | .frame (.startWait depth), .read (.byte b) => decide (b = ack) || decide (depth < stack)
  | .frame (.startWait depth), .read .eof => decide (depth < stack)
  | _, _ => true

/-- `Bitmap.createBitmap` gives a bitmap. -/
def bitmapMade : TaskPc → Reply Env → Bool
  | .frame (.newFrameTask _), .env e => e.bitmap
  | _, _ => true

/-- The operation is none that makes an exception escape. -/
def harmless (stack : Nat) (pc : TaskPc) (r : Reply Env) : Bool :=
  portValid pc r && fits stack pc r && bitmapMade pc r

/-- The step is none that makes an exception escape. -/
def Harmless (stack : Nat) (l : Label) (s : Host) : Prop :=
  match l with
  | .task c r => harmless stack (s.tasks c) r = true
  | _ => True

instance (stack : Nat) (l : Label) (s : Host) : Decidable (Harmless stack l s) := by
  induction l using Label.casesOn
  all_goals
    dsimp only [Harmless]
    infer_instance

/-! ### How the loop ends -/

/-- `MODULE_EXIT`, `running` is `false`, or an `IOException`. -/
def EndsBy (c : Nat) (m : Memory) (pc : TaskPc) (r : Reply Env) : Prop :=
  pc = .exitAck ∨ (pc = .loop ∧ m.running c = false) ∨ r = .read .error ∨
    r = .readBuf .error ∨ r = .done false ∨ ∃ e, r = .env e ∧ e.sockets = false

theorem harmless_iff {stack : Nat} {pc : TaskPc} {r : Reply Env} :
    harmless stack pc r = true ↔
      portValid pc r = true ∧ fits stack pc r = true ∧ bitmapMade pc r = true := by
  simp only [harmless, Bool.and_eq_true, and_assoc]

theorem EndsBy.of_fail {c : Nat} {m : Memory} {pc : TaskPc} : EndsBy c m pc (.done false) :=
  Or.inr (Or.inr (Or.inr (Or.inr (Or.inl rfl))))

theorem EndsBy.of_sockets {c : Nat} {m : Memory} {pc : TaskPc} {r : Reply Env} {e : Env}
    (hr : r = .env e) (he : e.sockets = false) : EndsBy c m pc r :=
  Or.inr (Or.inr (Or.inr (Or.inr (Or.inr ⟨e, hr, he⟩))))

/-- The thread of connection `c` makes its next operation. -/
def Own (stack c : Nat) (s t : Host) : Prop := ∃ r, step stack (.task c r) s = some t

/-- `run` has returned, the socket is closed and the connection is removed. -/
def Removed (c : Nat) (s : Host) : Prop :=
  s.tasks c = .done ∧ c ∈ s.memory.closed ∧ c ∉ s.memory.connections

/-- What is known of connection `c` where it stands. -/
structure Safe (stack c : Nat) (m : Memory) (pc : TaskPc) : Prop where
  alive : pc ≠ .dead ∧ pc ≠ .closeStreams true
  bounds : pc.InBounds stack
  socket : 2 ≤ pc.stage → m.frame.inputSocket.isSome
  frameTask : 3 ≤ pc.stage → m.frame.frameTask.isSome
  inputTask : 5 ≤ pc.stage → m.frame.inputTask.isSome
  closed : pc = .remove ∨ pc = .done → c ∈ m.closed
  removed : pc = .done → c ∉ m.connections

/-- What is known of the list of connections. -/
structure Listed (s : Host) : Prop where
  nodup : s.memory.connections.Nodup
  accepted : ∀ c ∈ s.memory.connections, c ∈ s.accepted
  loop : ∀ c, c ∉ s.accepted → s.tasks c = .loop

end Host

/-- No field is set back to `null`. -/
structure Kept (fm fm' : FrameModule) : Prop where
  socket : fm.inputSocket.isSome → fm'.inputSocket.isSome
  frameTask : fm.frameTask.isSome → fm'.frameTask.isSome
  inputTask : fm.inputTask.isSome → fm'.inputTask.isSome

/-- The operation is one of the three that an exception nobody catches can leave. -/
def Crashes (m : Memory) (pc : TaskPc) (r : Reply Env) : Prop :=
  (∃ p, pc = .frame (.newFramePacket p) ∧ validPort p = false) ∨
    (∃ p, pc = .frame (.getInputPort p) ∧ m.frame.inputSocket = none) ∨
    ∃ p e, pc = .frame (.newFrameTask p) ∧ r = .env e ∧ e.bitmap = false

section Operation

variable {stack c : Nat} {pc pc' : TaskPc} {r : Reply Env} {m m' : Memory} {fm fm' : FrameModule}

theorem Fields.kept (h : Fields c fm pc fm' pc') : Kept fm fm' := by
  cases h with
  | newInputSocket => exact ⟨fun _ => rfl, id, id⟩
  | newFrameTask => exact ⟨id, fun _ => rfl, id⟩
  | newInputTask => exact ⟨id, id, fun _ => rfl⟩
  | _ =>
    constructor
    all_goals simp

theorem FrameModule.kept_stop : Kept fm fm.stop := by
  unfold FrameModule.stop
  split_ifs
  · exact ⟨id, id, id⟩
  · exact ⟨id, id, id⟩

theorem FrameModule.kept_beginFrameTask {i : Nat} (h : fm.beginFrameTask i = some fm') :
    Kept fm fm' := by
  obtain ⟨_, _, _, _, rfl⟩ := FrameModule.beginFrameTask_cases h
  exact ⟨id, id, id⟩

theorem FrameModule.kept_beginInputTask {i : Nat} (h : fm.beginInputTask i = some fm') :
    Kept fm fm' := by
  obtain ⟨_, _, _, _, rfl⟩ := FrameModule.beginInputTask_cases h
  exact ⟨id, id, id⟩

theorem Fields.filled (h : Fields c fm pc fm' pc')
    (hsocket : 2 ≤ pc.stage → fm.inputSocket.isSome)
    (hframe : 3 ≤ pc.stage → fm.frameTask.isSome)
    (hinput : 5 ≤ pc.stage → fm.inputTask.isSome) :
    (2 ≤ pc'.stage → fm'.inputSocket.isSome) ∧ (3 ≤ pc'.stage → fm'.frameTask.isSome) ∧
      (5 ≤ pc'.stage → fm'.inputTask.isSome) := by
  cases h with
  | quiet _ _ _ _ _ hstage =>
    rcases hstage with hs | hs
    · rw [hs]
      exact ⟨hsocket, hframe, hinput⟩
    · rw [hs]
      exact ⟨by omega, by omega, by omega⟩
  | _ =>
    simp only [TaskPc.stage, FramePc.stage] at hsocket hframe hinput
    simp [hsocket, hframe, hinput]

theorem taskOp_lists (h : (taskOp c pc).exec r m = some (m', pc')) :
    m'.running = m.running ∧ (∀ d ∈ m.closed, d ∈ m'.closed) ∧
      m'.connections = if pc = .remove then m.connections.erase c else m.connections := by
  cases pc with
  | frame pc =>
    rw [(startOp_fields h).2]
    exact ⟨rfl, fun _ hd => hd, rfl⟩
  | listen pc s =>
    cases pc with
    | mode | key =>
      obtain ⟨_, rfl, rfl, rfl⟩ := Op.exec_read h
      exact ⟨rfl, fun _ hd => hd, rfl⟩
    | dispatchKey | dispatchText =>
      obtain ⟨_, rfl, hf⟩ := Op.exec_act h
      cases hf
      exact ⟨rfl, fun _ hd => hd, rfl⟩
    | text =>
      obtain ⟨_, rfl, rfl, rfl⟩ := Op.exec_readBuf h
      exact ⟨rfl, fun _ hd => hd, rfl⟩
    | _ =>
      obtain ⟨_, rfl, rfl, rfl⟩ := Op.exec_write h
      exact ⟨rfl, fun _ hd => hd, rfl⟩
  | closeStreams escaping =>
    obtain ⟨_, rfl, hf⟩ := Op.exec_act h
    cases hf
    exact ⟨rfl, fun _ hd => List.mem_cons_of_mem c hd, rfl⟩
  | closeSocket =>
    obtain ⟨_, rfl, hf⟩ := Op.exec_act h
    cases hf
    exact ⟨rfl, fun _ hd => List.mem_cons_of_mem c hd, rfl⟩
  | module =>
    obtain ⟨_, rfl, rfl, rfl⟩ := Op.exec_read h
    exact ⟨rfl, fun _ hd => hd, rfl⟩
  | moduleTimeout | exitAck =>
    obtain ⟨_, rfl, rfl, rfl⟩ := Op.exec_write h
    exact ⟨rfl, fun _ hd => hd, rfl⟩
  | done | dead => cases h
  | _ =>
    obtain ⟨_, rfl, hf⟩ := Op.exec_act h
    cases hf
    exact ⟨rfl, fun _ hd => hd, rfl⟩

theorem taskOp_read_ends {k : Read → TaskPc} (h : taskOp c pc = .read k) {x : Read}
    (hx : (k x).ends = true) :
    x = .error ∧ (k x = .frame .catchFrameTask ∨ k x = .closeStreams false) := by
  rcases taskOp_read_cases h with rfl | ⟨s, rfl⟩ | ⟨s, rfl⟩ | ⟨bs, rfl⟩ | ⟨d, rfl⟩ | rfl
  -- of a module
  · cases h
    cases x with
    | byte b =>
      simp only [TaskPc.ofModule] at hx
      split_ifs at hx
      all_goals cases hx
    | error => exact ⟨rfl, Or.inr rfl⟩
    | _ => cases hx
  -- of a mode
  · cases h
    cases x with
    | byte b =>
      simp only [ListenPc.ofMode] at hx
      split_ifs at hx
      all_goals cases hx
    | error => exact ⟨rfl, Or.inr rfl⟩
    | _ => cases hx
  -- of a key
  · cases h
    cases x with
    | error => exact ⟨rfl, Or.inr rfl⟩
    | _ => cases hx
  -- of a byte of the port
  · cases h
    cases x with
    | byte | eof =>
      simp only [FramePc.ofPortBytes] at hx
      split_ifs at hx
      · cases hx
      · cases hx
    | timeout => cases hx
    | error => exact ⟨rfl, Or.inl rfl⟩
  -- of the `ACK` that starts the tasks, and of the one that stops them
  · cases h
    cases x with
    | byte b =>
      dsimp only at hx
      split_ifs at hx
      · cases hx
      · cases hx
    | error => exact ⟨rfl, Or.inl rfl⟩
    | _ => cases hx
  · cases h
    cases x with
    | byte b =>
      dsimp only at hx
      split_ifs at hx
      · cases hx
      · cases hx
    | error => exact ⟨rfl, Or.inl rfl⟩
    | _ => cases hx

/-- **How the loop is left**: in one of the three ways, or by an exception. -/
def Exits (c : Nat) (m : Memory) (pc : TaskPc) (r : Reply Env) (pc' : TaskPc) : Prop :=
  (Host.EndsBy c m pc r ∧ (pc' = .frame .catchFrameTask ∨ pc' = .closeStreams false)) ∨
    (Crashes m pc r ∧ pc' = .closeStreams true)

theorem Exits.of_read {k : Read → TaskPc} (hop : taskOp c pc = .read k)
    (h : (taskOp c pc).exec r m = some (m', pc')) (h' : pc'.ends = true) :
    Exits c m pc r pc' := by
  rw [hop] at h
  obtain ⟨_, rfl, rfl, rfl⟩ := Op.exec_read h
  obtain ⟨rfl, hk⟩ := taskOp_read_ends hop h'
  exact Or.inl ⟨Or.inr (Or.inr (Or.inl rfl)), hk⟩

theorem startOp_ends {pc : FramePc} (h : (taskOp c (.frame pc)).exec r m = some (m', pc'))
    (hpc : (TaskPc.frame pc).ends = false) (h' : pc'.ends = true) :
    Exits c m (.frame pc) r pc' := by
  cases pc with
  | port bs => exact .of_read rfl h h'
  | startWait d => exact .of_read rfl h h'
  | parse => exact .of_read rfl h h'
  | newFramePacket p =>
    obtain ⟨e, rfl, hf⟩ := Op.exec_act h
    cases hs : e.sockets with
    | false =>
      simp only [hs] at hf
      cases hf
      exact Or.inl ⟨.of_sockets rfl hs, Or.inl rfl⟩
    | true =>
      simp only [hs] at hf
      cases hf
      cases hp : validPort p
      · exact Or.inr ⟨Or.inl ⟨p, rfl, hp⟩, by simp⟩
      · simp [hp, TaskPc.ends, TaskPc.left] at h'
  | newInputSocket p =>
    obtain ⟨e, rfl, hf⟩ := Op.exec_act h
    cases hs : e.sockets with
    | false =>
      simp only [hs] at hf
      cases hf
      exact Or.inl ⟨.of_sockets rfl hs, Or.inl rfl⟩
    | true =>
      simp only [hs] at hf
      cases hf
      cases h'
  | getInputPort p =>
    obtain ⟨_, rfl, hf⟩ := Op.exec_act h
    cases hf
    cases hs : m.frame.inputSocket with
    | none => exact Or.inr ⟨Or.inr (Or.inl ⟨p, rfl, hs⟩), rfl⟩
    | some socket =>
      rw [hs] at h'
      cases h'
  | newFrameTask p =>
    obtain ⟨e, rfl, hf⟩ := Op.exec_act h
    cases hb : e.bitmap with
    | false =>
      simp only [hb] at hf
      cases hf
      exact Or.inr ⟨Or.inr (Or.inr ⟨p, e, rfl, rfl, hb⟩), rfl⟩
    | true =>
      simp only [hb] at hf
      cases hf
      cases h'
  | writeInputPort p bs =>
    cases bs with
    | nil =>
      obtain ⟨_, rfl, hf⟩ := Op.exec_act h
      cases hf
      cases h'
    | cons =>
      obtain ⟨ok, rfl, rfl, rfl⟩ := Op.exec_write h
      cases ok
      · exact Or.inl ⟨.of_fail, Or.inl rfl⟩
      · cases h'
  | testConnected =>
    obtain ⟨_, rfl, hf⟩ := Op.exec_act h
    cases hf
    split_ifs at h'
    · cases h'
    · cases h'
  | testInstance =>
    obtain ⟨_, rfl, hf⟩ := Op.exec_act h
    cases hf
    split_ifs at h'
    · cases h'
    · cases h'
  | catchFrameTask => cases hpc
  | catchInputTask => cases hpc
  | ack | portTimeout | initAck | initReject | startTimeout | parseTimeout | busyReject =>
    obtain ⟨ok, rfl, rfl, rfl⟩ := Op.exec_write h
    cases ok
    · exact Or.inl ⟨.of_fail, Or.inl rfl⟩
    · cases h'
  | sendPacket =>
    obtain ⟨ok, rfl, rfl, rfl⟩ := Op.exec_send h
    cases ok
    · exact Or.inl ⟨.of_fail, Or.inl rfl⟩
    · cases h'
  | _ =>
    obtain ⟨_, rfl, hf⟩ := Op.exec_act h
    cases hf
    cases h'

theorem taskOp_ends (h : (taskOp c pc).exec r m = some (m', pc')) (hpc : pc.ends = false)
    (h' : pc'.ends = true) : Exits c m pc r pc' := by
  cases pc with
  | loop =>
    obtain ⟨_, rfl, hf⟩ := Op.exec_act h
    cases hf
    cases hrun : m.running c
    · exact Or.inl ⟨Or.inr (Or.inl ⟨rfl, hrun⟩), Or.inr (by simp)⟩
    · simp [hrun, TaskPc.ends, TaskPc.left] at h'
  | module => exact .of_read rfl h h'
  | exitAck =>
    obtain ⟨_, rfl, rfl, rfl⟩ := Op.exec_write h
    exact Or.inl ⟨Or.inl rfl, Or.inr rfl⟩
  | moduleTimeout =>
    obtain ⟨ok, rfl, rfl, rfl⟩ := Op.exec_write h
    cases ok
    · exact Or.inl ⟨.of_fail, Or.inr rfl⟩
    · cases h'
  | listen pc s =>
    cases pc with
    | mode => exact .of_read rfl h h'
    | key => exact .of_read rfl h h'
    | text =>
      obtain ⟨x, rfl, rfl, rfl⟩ := Op.exec_readBuf h
      cases x with
      | error => exact Or.inl ⟨Or.inr (Or.inr (Or.inr (Or.inl rfl))), Or.inr rfl⟩
      | _ => cases h'
    | dispatchKey k =>
      obtain ⟨_, rfl, hf⟩ := Op.exec_act h
      cases hf
      cases h'
    | dispatchText =>
      obtain ⟨_, rfl, hf⟩ := Op.exec_act h
      cases hf
      cases h'
    | _ =>
      obtain ⟨ok, rfl, rfl, rfl⟩ := Op.exec_write h
      cases ok
      · exact Or.inl ⟨.of_fail, Or.inr rfl⟩
      · cases h'
  | frame pc => exact startOp_ends h hpc h'
  | _ => cases hpc

theorem taskOp_ends_of_harmless (h : (taskOp c pc).exec r m = some (m', pc'))
    (hpc : pc.ends = false) (hbounds : pc.InBounds stack)
    (hsocket : 2 ≤ pc.stage → m.frame.inputSocket.isSome) (hok : Host.harmless stack pc r = true)
    (h' : pc'.ends = true) :
    Host.EndsBy c m pc r ∧ (pc' = .frame .catchFrameTask ∨ pc' = .closeStreams false) := by
  refine (taskOp_ends h hpc h').resolve_right ?_
  rintro ⟨⟨p, rfl, hp⟩ | ⟨p, rfl, hp⟩ | ⟨p, e, rfl, rfl, hp⟩, _⟩
  · have hvalid : validPort p = true := hbounds
    rw [hp] at hvalid
    cases hvalid
  · have hsome := hsocket (by simp)
    rw [hp] at hsome
    cases hsome
  · have hbitmap : e.bitmap = true := (Host.harmless_iff.mp hok).2.2
    rw [hp] at hbitmap
    cases hbitmap

theorem taskOp_of_ends (h : (taskOp c pc).exec r m = some (m', pc')) (hpc : pc.ends = true) :
    pc'.ends = true ∧ pc'.toEnd < pc.toEnd ∧ (pc' = .dead → pc = .closeStreams true) ∧
      pc' ≠ .closeStreams true ∧ (pc' = .remove → c ∈ m'.closed) ∧
      (pc' = .done → pc = .remove) := by
  cases pc with
  | frame pc =>
    cases pc with
    | catchFrameTask =>
      obtain ⟨_, rfl, hf⟩ := Op.exec_act h
      cases hf
      exact ⟨rfl, by decide, nofun, nofun, nofun, nofun⟩
    | catchInputTask =>
      obtain ⟨_, rfl, hf⟩ := Op.exec_act h
      cases hf
      exact ⟨rfl, by decide, nofun, nofun, nofun, nofun⟩
    | _ => cases hpc
  | closeStreams escaping =>
    cases escaping with
    | true =>
      obtain ⟨_, rfl, hf⟩ := Op.exec_act h
      cases hf
      exact ⟨rfl, by decide, fun _ => rfl, nofun, nofun, nofun⟩
    | false =>
      obtain ⟨_, rfl, hf⟩ := Op.exec_act h
      cases hf
      exact ⟨rfl, by decide, nofun, nofun, nofun, nofun⟩
  | closeSocket =>
    obtain ⟨_, rfl, hf⟩ := Op.exec_act h
    cases hf
    exact ⟨rfl, by decide, nofun, nofun, fun _ => List.mem_cons_self, nofun⟩
  | remove =>
    obtain ⟨_, rfl, hf⟩ := Op.exec_act h
    cases hf
    exact ⟨rfl, by decide, nofun, nofun, nofun, fun _ => rfl⟩
  | done => cases h
  | dead => cases h
  | _ => cases hpc

/-- A port that is one comes to `DatagramPacket`, and a call that fits on the stack is
made. -/
theorem startOp_inBounds {pc : FramePc} (h : (taskOp c (.frame pc)).exec r m = some (m', pc'))
    (hok : Host.harmless stack (.frame pc) r = true) : pc'.InBounds stack := by
  obtain ⟨hport, hfits, -⟩ := Host.harmless_iff.mp hok
  cases pc with
  | port bs =>
    obtain ⟨x, rfl, rfl, rfl⟩ := Op.exec_read h
    cases x with
    | byte b =>
      simp only [FramePc.ofPortBytes, List.length_append, List.length_singleton]
      split_ifs with hlen
      · have hthree : bs.length = 3 := by omega
        simpa [Host.portValid, hthree, TaskPc.InBounds] using hport
      · trivial
    | eof =>
      simp only [FramePc.ofPortBytes, List.length_append, List.length_singleton]
      split_ifs with hlen
      · have hthree : bs.length = 3 := by omega
        simpa [Host.portValid, hthree, TaskPc.InBounds] using hport
      · trivial
    | _ => trivial
  | initAck =>
    obtain ⟨ok, rfl, rfl, rfl⟩ := Op.exec_write h
    cases ok
    · trivial
    · exact Nat.zero_le stack
  | startWait d =>
    obtain ⟨x, rfl, rfl, rfl⟩ := Op.exec_read h
    cases x with
    | byte b =>
      dsimp only
      split_ifs with hb
      · trivial
      · have hlt : d < stack := by simpa [Host.fits, hb] using hfits
        exact hlt
    | eof =>
      have hlt : d < stack := by simpa [Host.fits] using hfits
      exact hlt
    | _ => trivial
  | parse =>
    obtain ⟨x, rfl, rfl, rfl⟩ := Op.exec_read h
    cases x with
    | byte =>
      dsimp only
      split_ifs
      · trivial
      · trivial
    | _ =>
      trivial
  | writeInputPort p bs =>
    cases bs with
    | nil =>
      obtain ⟨_, rfl, hf⟩ := Op.exec_act h
      cases hf
      trivial
    | cons =>
      obtain ⟨ok, rfl, rfl, rfl⟩ := Op.exec_write h
      cases ok
      · trivial
      · trivial
  | newFramePacket p =>
    obtain ⟨_, rfl, hf⟩ := Op.exec_act h
    split_ifs at hf
    all_goals
      cases hf
      trivial
  | newInputSocket p =>
    obtain ⟨_, rfl, hf⟩ := Op.exec_act h
    split_ifs at hf
    · cases hf
      trivial
    · cases hf
      trivial
  | getInputPort p =>
    obtain ⟨_, rfl, hf⟩ := Op.exec_act h
    cases hf
    cases m.frame.inputSocket
    · trivial
    · trivial
  | newFrameTask p =>
    obtain ⟨_, rfl, hf⟩ := Op.exec_act h
    split_ifs at hf
    · cases hf
      trivial
    · cases hf
      trivial
  | testConnected | testInstance =>
    obtain ⟨_, rfl, hf⟩ := Op.exec_act h
    cases hf
    split_ifs
    · trivial
    · trivial
  | ack | portTimeout | initReject | startTimeout | parseTimeout | busyReject =>
    obtain ⟨ok, rfl, rfl, rfl⟩ := Op.exec_write h
    cases ok
    · trivial
    · trivial
  | sendPacket =>
    obtain ⟨ok, rfl, rfl, rfl⟩ := Op.exec_send h
    cases ok
    · trivial
    · trivial
  | _ =>
    obtain ⟨_, rfl, hf⟩ := Op.exec_act h
    cases hf
    trivial

theorem taskOp_inBounds (h : (taskOp c pc).exec r m = some (m', pc'))
    (hok : Host.harmless stack pc r = true) : pc'.InBounds stack := by
  cases pc with
  | module =>
    obtain ⟨x, rfl, rfl, rfl⟩ := Op.exec_read h
    cases x with
    | byte =>
      simp only [TaskPc.ofModule]
      split_ifs
      all_goals trivial
    | _ =>
      trivial
  | listen pc s =>
    cases pc with
    | mode | key =>
      obtain ⟨x, rfl, rfl, rfl⟩ := Op.exec_read h
      cases x with
      | _ => trivial
    | dispatchKey | dispatchText =>
      obtain ⟨_, rfl, hf⟩ := Op.exec_act h
      cases hf
      trivial
    | text =>
      obtain ⟨x, rfl, rfl, rfl⟩ := Op.exec_readBuf h
      cases x with
      | _ => trivial
    | _ =>
      obtain ⟨x, rfl, rfl, rfl⟩ := Op.exec_write h
      cases x
      · trivial
      · trivial
  | frame pc => exact startOp_inBounds h hok
  | moduleTimeout =>
    obtain ⟨ok, rfl, rfl, rfl⟩ := Op.exec_write h
    cases ok
    · trivial
    · trivial
  | exitAck =>
    obtain ⟨_, rfl, rfl, rfl⟩ := Op.exec_write h
    trivial
  | closeSocket | remove =>
    obtain ⟨_, rfl, hf⟩ := Op.exec_act h
    cases hf
    trivial
  | done | dead => cases h
  | _ =>
    obtain ⟨_, rfl, hf⟩ := Op.exec_act h
    cases hf
    split_ifs
    · trivial
    · trivial

theorem Host.Safe.next (hs : Safe stack c m pc) (hnodup : m.connections.Nodup)
    (h : (taskOp c pc).exec r m = some (m', pc')) (hok : harmless stack pc r = true) :
    Safe stack c m' pc' := by
  obtain ⟨hsocket, hframe, hinput⟩ :=
    (taskOp_fields h).filled hs.socket hs.frameTask hs.inputTask
  obtain ⟨_, hclosed, hconn⟩ := taskOp_lists h
  have hbounds := taskOp_inBounds h hok
  cases hends : pc.ends with
  | true =>
    obtain ⟨_, _, hdead, hescape, hremove, hdone⟩ := taskOp_of_ends h hends
    refine ⟨⟨fun hpc => hs.alive.2 (hdead hpc), hescape⟩, hbounds, hsocket, hframe, hinput, ?_, ?_⟩
    · rintro (hpc | hpc)
      · exact hremove hpc
      · exact hclosed c (hs.closed (Or.inl (hdone hpc)))
    · intro hpc
      rw [hconn, if_pos (hdone hpc)]
      exact hnodup.not_mem_erase
  | false =>
    have hstay : pc'.ends = true → pc' = .frame .catchFrameTask ∨ pc' = .closeStreams false := by
      intro hends'
      exact (taskOp_ends_of_harmless h hends hs.bounds hs.socket hok hends').2
    have hne : ∀ q : TaskPc, q.ends = true → q ≠ .frame .catchFrameTask →
        q ≠ .closeStreams false → pc' ≠ q := by
      rintro q hq hcatch hclose rfl
      rcases hstay hq with rfl | rfl
      · exact hcatch rfl
      · exact hclose rfl
    have halive : pc' ≠ .dead ∧ pc' ≠ .closeStreams true :=
      ⟨hne _ rfl nofun nofun, hne _ rfl nofun nofun⟩
    refine ⟨halive, hbounds, hsocket, hframe, hinput, ?_, ?_⟩
    · rintro (hpc | hpc)
      · exact absurd hpc (hne _ rfl nofun nofun)
      · exact absurd hpc (hne _ rfl nofun nofun)
    · exact fun hpc => absurd hpc (hne _ rfl nofun nofun)

/-- A connection is removed only after its socket is closed. -/
theorem taskOp_remove (h : (taskOp c pc).exec r m = some (m', pc')) (h' : pc' = .remove) :
    c ∈ m'.closed := by
  have hends' : pc'.ends = true := by
    rw [h']
    rfl
  cases hends : pc.ends with
  | true => exact (taskOp_of_ends h hends).2.2.2.2.1 h'
  | false =>
    exfalso
    rcases taskOp_ends h hends hends' with ⟨_, hpc | hpc⟩ | ⟨_, hpc⟩
    all_goals
      rw [h'] at hpc
      cases hpc

theorem taskOp_enabled_of_ends (h : pc.ends = true) (hdead : pc ≠ .dead) (hdone : pc ≠ .done)
    (e : Env) (m : Memory) : ∃ next, (taskOp c pc).exec (.env e) m = some next := by
  cases pc with
  | frame pc =>
    cases pc with
    | catchFrameTask => exact ⟨_, rfl⟩
    | catchInputTask => exact ⟨_, rfl⟩
    | _ => cases h
  | closeStreams escaping => exact ⟨_, rfl⟩
  | closeSocket => exact ⟨_, rfl⟩
  | remove => exact ⟨_, rfl⟩
  | done => exact absurd rfl hdone
  | dead => exact absurd rfl hdead
  | _ => cases h

theorem harmless_of_ends (h : pc.ends = true) :
    Host.harmless stack pc r = true := by
  cases pc with
  | frame pc =>
    cases pc with
    | port | newFrameTask | startWait => cases h
    | _ => rfl
  | _ => rfl

theorem onStack_of_ends (h : pc.ends = true) : pc.onStack stack = pc := by
  unfold TaskPc.onStack
  split
  · cases h
  · rfl

end Operation

namespace Host

variable {stack c : Nat} {m m' : Memory} {pc : TaskPc} {s t : Host} {l : Label}

theorem Safe.mono (hs : Safe stack c m pc) (hk : Kept m.frame m'.frame)
    (hclosed : ∀ d ∈ m.closed, d ∈ m'.closed) (hconn : pc = .done → c ∈ m'.connections →
      c ∈ m.connections) : Safe stack c m' pc where
  alive := hs.alive
  bounds := hs.bounds
  socket := fun h => hk.socket (hs.socket h)
  frameTask := fun h => hk.frameTask (hs.frameTask h)
  inputTask := fun h => hk.inputTask (hs.inputTask h)
  closed := fun h => hclosed c (hs.closed h)
  removed := fun h hc => hs.removed h (hconn h hc)

/-- Every connection is safe. -/
structure AllSafe (stack : Nat) (s : Host) : Prop where
  listed : Listed s
  safe : ∀ c, Safe stack c s.memory (s.tasks c)

theorem AllSafe.of_memory (h : AllSafe stack s) (m : Memory) (native : List NativeCall)
    (hk : Kept s.memory.frame m.frame) (hclosed : ∀ d ∈ s.memory.closed, d ∈ m.closed)
    (hconn : m.connections = s.memory.connections) :
    AllSafe stack { s with memory := m, native := native } where
  listed := by
    refine ⟨?_, ?_, h.listed.loop⟩
    · rw [hconn]
      exact h.listed.nodup
    · rw [hconn]
      exact h.listed.accepted
  safe := fun c => (h.safe c).mono hk hclosed (fun _ hc => hconn ▸ hc)

theorem AllSafe.stepAccept {d : Nat} (h : AllSafe stack s)
    (hst : Host.step stack (.accept d) s = some t) : AllSafe stack t := by
  rw [Host.step] at hst
  split_ifs at hst with hd
  cases hst
  have hnew : d ∉ s.memory.connections := fun hc => hd (h.listed.accepted d hc)
  refine ⟨⟨?_, fun c hc => ?_, fun c hc => ?_⟩, fun c => ?_⟩
  · exact List.nodup_append.mpr ⟨h.listed.nodup, by simp, by
      rintro a ha b hb rfl
      rw [List.mem_singleton] at hb
      exact hnew (hb ▸ ha)⟩
  · rcases List.mem_append.mp hc with hc | hc
    · exact List.mem_cons_of_mem d (h.listed.accepted c hc)
    · rw [List.mem_singleton.mp hc]
      exact List.mem_cons_self
  · exact h.listed.loop c fun hc' => hc (List.mem_cons_of_mem d hc')
  · refine (h.safe c).mono ⟨id, id, id⟩ (fun _ hc => hc) (fun hdone hc => ?_)
    rcases List.mem_append.mp hc with hc | hc
    · exact hc
    · rw [List.mem_singleton] at hc
      have hloop := h.listed.loop c (hc ▸ hd)
      rw [hdone] at hloop
      cases hloop

theorem AllSafe.stepTask {d : Nat} {r : Reply Env} (h : AllSafe stack s)
    (hok : Harmless stack (.task d r) s) (hst : Host.step stack (.task d r) s = some t) :
    AllSafe stack t := by
  obtain ⟨hd, m, pc, hexec, rfl⟩ := step_task hst
  obtain ⟨_, hclosed, hconn⟩ := taskOp_lists hexec
  have hown := (h.safe d).next h.listed.nodup hexec hok
  have hsub : ∀ c ∈ m.connections, c ∈ s.memory.connections := by
    intro c hc
    rw [hconn] at hc
    split_ifs at hc
    · exact List.mem_of_mem_erase hc
    · exact hc
  refine ⟨⟨?_, fun c hc => h.listed.accepted c (hsub c hc), fun c hc => ?_⟩, fun c => ?_⟩
  · show m.connections.Nodup
    rw [hconn]
    split_ifs
    · exact h.listed.nodup.erase d
    · exact h.listed.nodup
  · have hcd : c ≠ d := fun hcd => hc (hcd.symm ▸ hd)
    rw [tasks_advance_of_ne m pc hcd]
    exact h.listed.loop c hc
  · by_cases hcd : c = d
    · rw [hcd, tasks_advance, hown.bounds.onStack]
      exact hown
    · rw [tasks_advance_of_ne m pc hcd]
      exact (h.safe c).mono (taskOp_fields hexec).kept hclosed (fun _ => hsub c)

theorem AllSafe.step (h : AllSafe stack s) (hok : Harmless stack l s)
    (hst : Host.step stack l s = some t) : AllSafe stack t := by
  cases l with
  | accept d => exact h.stepAccept hst
  | task d r => exact h.stepTask hok hst
  | beginFrameTask i =>
    obtain ⟨fm, hfm, rfl⟩ := Option.map_eq_some_iff.mp hst
    exact h.of_memory { s.memory with frame := fm } s.native (FrameModule.kept_beginFrameTask hfm)
      (fun _ hc => hc) rfl
  | beginInputTask i =>
    obtain ⟨fm, hfm, rfl⟩ := Option.map_eq_some_iff.mp hst
    exact h.of_memory { s.memory with frame := fm } s.native (FrameModule.kept_beginInputTask hfm)
      (fun _ hc => hc) rfl
  | updateFrame i =>
    obtain ⟨ft, _, rfl⟩ := Option.map_eq_some_iff.mp hst
    exact h.of_memory s.memory _ ⟨id, id, id⟩ (fun _ hc => hc) rfl
  | destroy =>
    cases hst
    exact h.of_memory (s.memory.onFrame FrameModule.stop) _ FrameModule.kept_stop
      (fun _ hc => hc) rfl
  | stop d =>
    cases hst
    exact h.of_memory { s.memory with running := Function.update s.memory.running d false } s.native
      ⟨id, id, id⟩ (fun _ hc => hc) rfl
  | close d =>
    cases hst
    exact h.of_memory { s.memory with closed := d :: s.memory.closed } s.native ⟨id, id, id⟩
      (fun _ hc => List.mem_cons_of_mem d hc) rfl

/-- Where the loop has ended, the connection is cleaned up whatever the environment
answers. -/
theorem AllSafe.inevitable (h : AllSafe stack s) (hc : c ∈ s.accepted)
    (hends : (s.tasks c).ends = true) : Inevitable (Own stack c) (Removed c) s := by
  refine Inevitable.of_rank
    (I := fun s => (AllSafe stack s ∧ c ∈ s.accepted) ∧ (s.tasks c).ends = true)
    (fun s => (s.tasks c).toEnd) ?_ ?_ ⟨⟨h, hc⟩, hends⟩
  · rintro s ⟨⟨h, hc⟩, hends⟩ hne
    have hsafe := h.safe c
    have hdone : s.tasks c ≠ .done := fun hdone =>
      hne ⟨hdone, hsafe.closed (Or.inr hdone), hsafe.removed hdone⟩
    let e : Env := ⟨0, true, 0, 0, 0, true⟩
    obtain ⟨next, hnext⟩ := taskOp_enabled_of_ends hends hsafe.alive.1 hdone e s.memory
    exact ⟨_, .env e, by rw [Host.step, if_pos hc, hnext]; rfl⟩
  · rintro s t ⟨⟨h, hc⟩, hends⟩ _ ⟨r, hst⟩
    have hsafe := h.stepTask (harmless_of_ends hends) hst
    obtain ⟨_, m, pc, hexec, rfl⟩ := step_task hst
    obtain ⟨hends', hlt, _⟩ := taskOp_of_ends hexec hends
    have hpc : (s.advance stack c r m pc).tasks c = pc := by
      rw [tasks_advance]
      exact onStack_of_ends hends'
    rw [hpc]
    exact ⟨⟨⟨hsafe, hc⟩, hends'⟩, hlt⟩

/-- What the environment answers in the runs below. -/
def env : Env := ⟨40001, true, 1080, 1920, 7, true⟩

/-- Connection `c` asks for the frame module and sends four bytes for its port. -/
def request (c : Nat) (a b d e : Byte) : List Label :=
  [.accept c, .task c (.env env), .task c (.read (.byte moduleFrame)), .task c (.env env),
    .task c (.env env), .task c (.done true), .task c (.read (.byte a)),
    .task c (.read (.byte b)), .task c (.read (.byte d)), .task c (.read (.byte e))]

end Host

end MikaAudio.Server
