import MikaAudio.Server.Zone

/-!
# What a closed connection leaves behind

One connection, alone, that receives a list of bytes and then the end of its stream.
`run` comes to its normal end only through a `MODULE_EXIT` byte: `-1` is no `ACK`, no
mode and no module, so each of its loops goes on reading.  `Place` is what the next
byte is taken for, and `Leaves` says that the bytes hold a `MODULE_EXIT` at the place
of a module; a step never changes whether the rest of the bytes does (`Step.leaves`).
The private `start` calls itself for every byte that is no `ACK`; `stack` such calls fit
on the stack, and one more ends the thread by an exception.
-/

namespace MikaAudio.Server

open Thread Interleave

/-! ### The places of a byte -/

/-- What the next byte is taken for; `over` tells whether `run` comes to its normal
end without another byte, or never. -/
inductive Place
  | module
  | mode
  | key
  | port (bs : List JInt)
  | start (depth : Nat)
  | parse
  | over (normal : Bool)
  deriving DecidableEq

/-- After the fourth byte of the port `init` goes on, or `DatagramPacket` refuses the
port with an exception nobody catches. -/
def Place.ofPort (framePort : JInt) : Place :=
  if validPort framePort then .start 0 else .over false

/-- One more call of the private `start` waits for the `ACK`, if it fits on the stack. -/
def Place.ofDepth (stack depth : Nat) : Place :=
  if depth ≤ stack then .start depth else .over false

/-- The place after one byte.  A text goes on to the end of the stream. -/
def Place.next (stack : Nat) : Place → Byte → Place
  | .module, b =>
    if b = moduleExit then .over true
    else if b = moduleInput then .mode
    else if b = moduleFrame then .port []
    else .module
  | .mode, b =>
    if b = modeExit then .module
    else if b = modeKey then .key
    else if b = modeText then .over false
    else .mode
  | .key, _ => .mode
  | .port bs, b =>
    if (bs ++ [inRead (some b)]).length = 4 then .ofPort (readIntOf (bs ++ [inRead (some b)]))
    else .port (bs ++ [inRead (some b)])
  | .start depth, b => if b = ack then .parse else .ofDepth stack (depth + 1)
  | .parse, b => if b = ack then .module else .parse
  | .over normal, _ => .over normal

/-- The bytes hold a `MODULE_EXIT` where a module byte is read, before any text; every
frame port before it is one, and every start `ACK` comes while the calls of the private
`start` fit on the stack. -/
def Leaves (stack : Nat) (bytes : List Byte) : Prop :=
  bytes.foldl (Place.next stack) .module = .over true

instance (stack : Nat) : DecidablePred (Leaves stack) := fun bytes =>
  inferInstanceAs (Decidable (bytes.foldl (Place.next stack) .module = .over true))

/-! ### The place of a state -/

/-- What `listen` takes the next byte for. -/
def ListenPc.place : ListenPc → Place
  | .key => .key
  | .keyTimeout => .key
  | .text => .over false
  | .textTimeout => .over false
  | .ack => .mode
  | .mode => .mode
  | .modeTimeout => .mode
  | .dispatchKey _ => .mode
  | .dispatchText => .mode
  | .exitAck => .module

/-- What `start` takes the next byte for, when native `init` succeeds. -/
def FramePc.place : FramePc → Place
  | .setInputModule => .port []
  | .testConnected => .port []
  | .ack => .port []
  | .port bs => .port bs
  | .portTimeout => .port []
  | .newFramePacket framePort => .ofPort framePort
  | .newInputSocket _ => .start 0
  | .getInputPort _ => .start 0
  | .writeInputPort _ _ => .start 0
  | .metrics _ => .start 0
  | .fillPacket _ => .start 0
  | .sendPacket _ _ => .start 0
  | .nativeInit _ => .start 0
  | .newFrameTask _ => .start 0
  | .testInstance => .start 0
  | .initAck => .start 0
  | .initReject => .module
  | .clearConnected => .module
  | .startWait depth => .start depth
  | .startTimeout => .module
  | .startFrameTask => .parse
  | .newInputTask => .parse
  | .startInputTask => .parse
  | .parse => .parse
  | .parseTimeout => .parse
  | .stopFrameTask => .module
  | .stopInputTask => .module
  | .busyReject => .module
  | .catchFrameTask => .over true
  | .catchInputTask => .over true

/-- What `run` takes the next byte for. -/
def TaskPc.place : TaskPc → Place
  | .loop => .module
  | .module => .module
  | .moduleTimeout => .module
  | .listen pc _ => pc.place
  | .frame pc => pc.place
  | .closeStreams escaping => .over (!escaping)
  | .dead => .over false
  | _ => .over true

/-- The operations up to the next read, or to the end. -/
def FramePc.rank : FramePc → Nat
  | .setInputModule => 3
  | .testConnected => 2
  | .ack => 1
  | .newFramePacket _ => 20
  | .newInputSocket _ => 19
  | .getInputPort _ => 18
  | .writeInputPort _ bs => 13 + bs.length
  | .metrics _ => 12
  | .fillPacket _ => 11
  | .sendPacket _ _ => 10
  | .nativeInit _ => 9
  | .newFrameTask _ => 8
  | .testInstance => 7
  | .initAck => 6
  | .initReject => 6
  | .clearConnected => 5
  | .startFrameTask => 3
  | .newInputTask => 2
  | .startInputTask => 1
  | .stopFrameTask => 6
  | .stopInputTask => 5
  | .catchFrameTask => 6
  | .catchInputTask => 5
  | .busyReject => 7
  | .portTimeout => 1
  | .startTimeout => 7
  | .parseTimeout => 1
  | .port _ => 0
  | .startWait _ => 0
  | .parse => 0

/-- The operations up to the next read, or to the end. -/
def ListenPc.rank : ListenPc → Nat
  | .mode => 0
  | .key => 0
  | .text => 0
  | .exitAck => 5
  | _ => 1

/-- The operations up to the next read, or to the end. -/
def TaskPc.rank : TaskPc → Nat
  | .loop => 4
  | .moduleTimeout => 5
  | .exitAck => 4
  | .listen pc _ => pc.rank
  | .frame pc => pc.rank
  | .closeStreams _ => 3
  | .closeSocket => 2
  | .remove => 1
  | _ => 0

/-! ### One operation -/

/-- The sockets and the bitmap can be made and native `init` succeeds. -/
def Succeeds (e : Env) : Prop := e.sockets = true ∧ e.bitmap = true ∧ e.screen ≠ -1

/-- The memory is as `run` expects it where it stands. -/
structure Ready (c : Nat) (m : Memory) (pc : TaskPc) : Prop where
  sound : Sound c m pc
  screen : (∃ framePort, pc = .frame (.newFrameTask framePort)) ∨ pc = .frame .testInstance →
    m.frame.instancePtr ≠ -1
  nodup : m.connections.Nodup
  closed : pc = .closeSocket ∨ pc = .remove ∨ pc = .done → c ∈ m.closed
  removed : pc = .done → c ∉ m.connections

/-- The states after a read, a write or a datagram: nothing is asked of the memory
there. -/
def TaskPc.plain : TaskPc → Bool
  | .frame (.newFrameTask _) => false
  | .frame .testInstance => false
  | .closeSocket => false
  | .remove => false
  | .done => false
  | _ => true

section Operation

variable {stack c : Nat} {pc pc' : TaskPc} {m m' : Memory}

theorem Ready.of_plain (h : Sound c m pc) (hnodup : m.connections.Nodup)
    (hplain : pc.plain = true) : Ready c m pc where
  sound := h
  screen := by
    rintro (⟨_, rfl⟩ | rfl)
    · cases hplain
    · cases hplain
  nodup := hnodup
  closed := by
    rintro (rfl | rfl | rfl)
    all_goals cases hplain
  removed := by rintro rfl; cases hplain

theorem Ready.of_screen {pc : FramePc} (h : Sound c m (.frame pc)) (hnodup : m.connections.Nodup)
    (hscreen : m.frame.instancePtr ≠ -1) : Ready c m (.frame pc) where
  sound := h
  screen := fun _ => hscreen
  nodup := hnodup
  closed := by
    rintro (hpc | hpc | hpc)
    all_goals cases hpc
  removed := by rintro hpc; cases hpc

theorem taskOp_read_place {k : Read → TaskPc} (h : taskOp c pc = .read k) (b : Byte) :
    ((k (.byte b)).onStack stack).place = pc.place.next stack b := by
  rcases taskOp_read_cases h with rfl | ⟨s, rfl⟩ | ⟨s, rfl⟩ | ⟨bs, rfl⟩ | ⟨d, rfl⟩ | rfl
  all_goals cases h
  · simp only [TaskPc.place, Place.next, TaskPc.ofModule]
    split_ifs
    all_goals rfl
  · simp only [TaskPc.place, ListenPc.place, Place.next, ListenPc.ofMode]
    split_ifs
    all_goals rfl
  · rfl
  · simp only [TaskPc.place, FramePc.ofPortBytes, FramePc.place, Place.next]
    split_ifs
    · rfl
    · rfl
  · simp only [TaskPc.place, FramePc.place, Place.next]
    split_ifs
    · rfl
    · simp only [TaskPc.onStack, Place.ofDepth]
      split_ifs
      · rfl
      · rfl
  · simp only [TaskPc.place, FramePc.place, Place.next]
    split_ifs
    · rfl
    · rfl

/-- The end of the stream is no `MODULE_EXIT`. -/
theorem taskOp_read_eof {k : Read → TaskPc} (h : taskOp c pc = .read k) :
    pc.place ≠ .over true ∧ (k .eof).place ≠ .over true := by
  refine ⟨fun hpc => ?_, fun hk => ?_⟩
  · rcases taskOp_read_cases h with rfl | ⟨s, rfl⟩ | ⟨s, rfl⟩ | ⟨bs, rfl⟩ | ⟨d, rfl⟩ | rfl
    all_goals cases hpc
  · rcases taskOp_read_cases h with rfl | ⟨s, rfl⟩ | ⟨s, rfl⟩ | ⟨bs, rfl⟩ | ⟨d, rfl⟩ | rfl
    -- only after the fourth byte of the port the end of `run` may be near
    case inr.inr.inr.inl =>
      cases h
      simp only [TaskPc.place, FramePc.ofPortBytes] at hk
      split_ifs at hk
      · simp only [FramePc.place, Place.ofPort] at hk
        split_ifs at hk
        cases hk
      · cases hk
    all_goals
      cases h
      cases hk

theorem taskOp_read_plain {k : Read → TaskPc} (h : taskOp c pc = .read k) (r : Read) :
    (k r).plain = true := by
  rcases taskOp_read_cases h with rfl | ⟨s, rfl⟩ | ⟨s, rfl⟩ | ⟨bs, rfl⟩ | ⟨d, rfl⟩ | rfl
  · cases h
    cases r with
    | byte b =>
      simp only [TaskPc.ofModule]
      split_ifs
      all_goals rfl
    | _ => rfl
  · cases h
    cases r with
    | _ => rfl
  · cases h
    cases r with
    | _ => rfl
  · cases h
    cases r with
    | byte | eof =>
      simp only [FramePc.ofPortBytes]
      split_ifs
      · rfl
      · rfl
    | _ => rfl
  · cases h
    cases r with
    | byte b =>
      dsimp only
      split_ifs
      · rfl
      · rfl
    | _ => rfl
  · cases h
    cases r with
    | byte b =>
      dsimp only
      split_ifs
      · rfl
      · rfl
    | _ => rfl

theorem taskOp_read_rank {k : Read → TaskPc} (h : taskOp c pc = .read k) (b : Byte) :
    (k (.byte b)).rank < 32 := by
  rcases taskOp_read_cases h with rfl | ⟨s, rfl⟩ | ⟨s, rfl⟩ | ⟨bs, rfl⟩ | ⟨d, rfl⟩ | rfl
  · cases h
    simp only [TaskPc.ofModule]
    split_ifs
    all_goals simp [TaskPc.rank, ListenPc.rank, FramePc.rank]
  · cases h
    simp only [TaskPc.rank, ListenPc.ofMode]
    split_ifs
    all_goals simp [ListenPc.rank]
  · cases h
    simp [TaskPc.rank, ListenPc.rank]
  · cases h
    simp only [TaskPc.rank, FramePc.ofPortBytes]
    split_ifs
    · simp [FramePc.rank]
    · simp [FramePc.rank]
  · cases h
    simp only [TaskPc.rank]
    split_ifs
    · simp [FramePc.rank]
    · simp [FramePc.rank]
  · cases h
    simp only [TaskPc.rank]
    split_ifs
    · simp [FramePc.rank]
    · simp [FramePc.rank]

theorem taskOp_readBuf_place {len : Nat} {k : BufRead → TaskPc}
    (h : taskOp c pc = .readBuf len k) :
    pc.place = .over false ∧ (k .eof).place ≠ .over true ∧ (k .eof).plain = true ∧
      ∀ bs, (k (.bytes bs)).place = .over false ∧ (k (.bytes bs)).plain = true := by
  cases pc with
  | listen pc s =>
    cases pc with
    | text =>
      cases h
      exact ⟨rfl, by simp [TaskPc.place, ListenPc.place], rfl, fun _ => ⟨rfl, rfl⟩⟩
    | _ => cases h
  | frame pc =>
    cases pc with
    | writeInputPort p bs =>
      cases bs
      · cases h
      · cases h
    | _ => cases h
  | _ => cases h

theorem taskOp_write_place {b : Byte} {k : Bool → TaskPc} (h : taskOp c pc = .write b k) :
    (k true).place = pc.place ∧ (k true).rank < pc.rank ∧ (k true).plain = true := by
  cases pc with
  | listen pc s =>
    cases pc with
    | mode | key | dispatchKey | text | dispatchText => cases h
    | _ =>
      cases h
      exact ⟨rfl, by simp [TaskPc.rank, ListenPc.rank], rfl⟩
  | frame pc =>
    cases pc with
    | writeInputPort p bs =>
      cases bs with
      | nil => cases h
      | cons b bs => cases h; exact ⟨rfl, by simp [TaskPc.rank, FramePc.rank], rfl⟩
    | ack | portTimeout | initAck | initReject | startTimeout | parseTimeout | busyReject =>
      cases h
      exact ⟨rfl, by decide, rfl⟩
    | _ => cases h
  | moduleTimeout | exitAck =>
    cases h
    exact ⟨rfl, by decide, rfl⟩
  | _ => cases h

theorem taskOp_send_place {p : JInt} {d : List Byte} {k : Bool → TaskPc}
    (h : taskOp c pc = .send p d k) :
    (k true).place = pc.place ∧ (k true).rank < pc.rank ∧ (k true).plain = true := by
  cases pc with
  | listen pc s =>
    cases pc with
    | _ => cases h
  | frame pc =>
    cases pc with
    | writeInputPort p bs =>
      cases bs
      · cases h
      · cases h
    | sendPacket p d =>
      cases h
      exact ⟨rfl, by simp [TaskPc.rank, FramePc.rank], rfl⟩
    | _ => cases h
  | _ => cases h

theorem startOp_act_place {pc : FramePc} {f : Env → Memory → Option (Memory × TaskPc)} {e : Env}
    (he : Succeeds e) (h : taskOp c (.frame pc) = .act f) (hf : f e m = some (m', pc'))
    (hr : Ready c m (.frame pc)) :
    Ready c m' pc' ∧ pc'.place = pc.place ∧ pc'.rank < pc.rank := by
  have hsound := (startOp_act h hf hr.sound).1
  have hplain : m'.connections = m.connections → pc'.plain = true → Ready c m' pc' :=
    fun hm hp => .of_plain hsound (by rw [hm]; exact hr.nodup) hp
  cases pc with
  | testConnected =>
    cases h
    simp only [hr.sound.connected, Option.some.injEq, Prod.mk.injEq] at hf
    obtain ⟨rfl, rfl⟩ := hf
    exact ⟨hplain rfl rfl, rfl, by simp [TaskPc.rank, FramePc.rank]⟩
  | newFramePacket p =>
    cases h
    simp only [he.1, if_true, Option.some.injEq, Prod.mk.injEq] at hf
    obtain ⟨rfl, rfl⟩ := hf
    by_cases hp : validPort p = true
    · rw [if_pos hp] at hplain ⊢
      exact ⟨hplain rfl rfl, by simp [TaskPc.place, FramePc.place, Place.ofPort, hp],
        by simp [TaskPc.rank, FramePc.rank]⟩
    · rw [if_neg hp] at hplain ⊢
      exact ⟨hplain rfl rfl, by simp [TaskPc.place, FramePc.place, Place.ofPort, hp],
        by simp [TaskPc.rank, FramePc.rank]⟩
  | newInputSocket p =>
    cases h
    simp only [he.1, if_true, Option.some.injEq, Prod.mk.injEq] at hf
    obtain ⟨rfl, rfl⟩ := hf
    exact ⟨hplain rfl rfl, rfl, by simp [TaskPc.rank, FramePc.rank]⟩
  | getInputPort p =>
    cases h
    obtain ⟨socket, hsocket⟩ := Option.isSome_iff_exists.mp (hr.sound.socket p rfl)
    simp only [hsocket, Option.some.injEq, Prod.mk.injEq] at hf
    obtain ⟨rfl, rfl⟩ := hf
    exact ⟨hplain rfl rfl, rfl, by simp [TaskPc.rank, FramePc.rank]⟩
  | writeInputPort p bs =>
    cases bs with
    | cons b bs => cases h
    | nil =>
      cases h; cases hf
      exact ⟨hplain rfl rfl, rfl, by simp [TaskPc.rank, FramePc.rank]⟩
  | nativeInit p =>
    cases h; cases hf
    exact ⟨.of_screen hsound hr.nodup he.2.2, rfl, by simp [TaskPc.rank, FramePc.rank]⟩
  | newFrameTask p =>
    cases h
    simp only [he.2.1, if_true, Option.some.injEq, Prod.mk.injEq] at hf
    obtain ⟨rfl, rfl⟩ := hf
    have hscreen : m.frame.instancePtr ≠ -1 := hr.screen (Or.inl ⟨p, rfl⟩)
    exact ⟨.of_screen hsound hr.nodup hscreen, rfl, by simp [TaskPc.rank, FramePc.rank]⟩
  | testInstance =>
    cases h
    simp only [hr.screen (Or.inr rfl), ne_eq, not_false_iff, if_true, Option.some.injEq,
      Prod.mk.injEq] at hf
    obtain ⟨rfl, rfl⟩ := hf
    exact ⟨hplain rfl rfl, rfl, by simp [TaskPc.rank, FramePc.rank]⟩
  | ack | port | portTimeout | sendPacket | initAck | initReject | startWait | startTimeout |
    parse | parseTimeout | busyReject =>
    cases h
  | _ =>
    cases h
    cases hf
    exact ⟨hplain rfl rfl, rfl, by simp [TaskPc.rank, FramePc.rank]⟩

theorem taskOp_act_place {f : Env → Memory → Option (Memory × TaskPc)} {e : Env}
    (he : Succeeds e) (h : taskOp c pc = .act f) (hf : f e m = some (m', pc'))
    (hr : Ready c m pc) : Ready c m' pc' ∧ pc'.place = pc.place ∧ pc'.rank < pc.rank := by
  have hsound := (taskOp_act h hf hr.sound).1
  cases pc with
  | loop =>
    cases h
    simp only [hr.sound.running, if_true, Option.some.injEq, Prod.mk.injEq] at hf
    obtain ⟨rfl, rfl⟩ := hf
    exact ⟨.of_plain hsound hr.nodup rfl, rfl, by decide⟩
  | listen pc s =>
    cases pc with
    | dispatchKey | dispatchText =>
      cases h
      cases hf
      exact ⟨.of_plain hsound hr.nodup rfl, rfl, by simp [TaskPc.rank, ListenPc.rank]⟩
    | _ => cases h
  | frame pc => exact startOp_act_place he h hf hr
  | closeStreams escaping =>
    cases h; cases hf
    cases escaping with
    | true => exact ⟨.of_plain hsound hr.nodup rfl, rfl, by decide⟩
    | false =>
      exact ⟨⟨hsound, by simp, hr.nodup, fun _ => List.mem_cons_self, nofun⟩, rfl, by decide⟩
  | closeSocket =>
    cases h; cases hf
    exact ⟨⟨hsound, by simp, hr.nodup, fun _ => List.mem_cons_self, nofun⟩, rfl, by decide⟩
  | remove =>
    cases h; cases hf
    refine ⟨⟨hsound, by simp, hr.nodup.erase c, fun _ => hr.closed (Or.inr (Or.inl rfl)),
      fun _ => ?_⟩, rfl, by decide⟩
    exact hr.nodup.not_mem_erase
  | _ => cases h

/-! ### The stack -/

theorem onStack_eq (h : ∀ d, pc.place = .start d → d = 0) : pc.onStack stack = pc := by
  cases pc with
  | frame pc =>
    cases pc with
    | startWait d =>
      obtain rfl := h d rfl
      rw [TaskPc.onStack, if_pos (Nat.zero_le stack)]
    | _ => rfl
  | _ => rfl

/-- Only a read nests a call. -/
theorem depth_of_rank {d : Nat} (h : pc.place = .start d) (hrank : 0 < pc.rank) : d = 0 := by
  cases pc with
  | listen pc s =>
    cases pc with
    | _ => cases h
  | frame pc =>
    cases pc with
    | newFramePacket p =>
      simp only [TaskPc.place, FramePc.place, Place.ofPort] at h
      split_ifs at h
      exact (Place.start.inj h).symm
    | startWait d' => exact absurd hrank (Nat.lt_irrefl 0)
    | newInputSocket _ | getInputPort _ | writeInputPort _ _ | metrics _ | fillPacket _
    | sendPacket _ _ | nativeInit _ | newFrameTask _ | testInstance | initAck =>
      exact (Place.start.inj h).symm
    | _ => cases h
  | _ => cases h

theorem onStack_of_place (hplace : pc'.place = pc.place) (hrank : pc'.rank < pc.rank) :
    pc'.onStack stack = pc' :=
  onStack_eq fun _ h => depth_of_rank (hplace.symm.trans h) (Nat.zero_lt_of_lt hrank)

theorem Ready.onStack (h : Ready c m pc) : Ready c m (pc.onStack stack) := by
  unfold TaskPc.onStack
  split
  · split_ifs
    · exact h
    · exact .of_plain (h.sound.of_closed rfl rfl rfl) h.nodup rfl
  · exact h

theorem place_onStack_ne (h : pc.place ≠ .over true) : (pc.onStack stack).place ≠ .over true := by
  unfold TaskPc.onStack
  split
  · split_ifs
    · exact h
    · exact fun h => by cases h
  · exact h

theorem rank_onStack (h : pc.rank < 32) : (pc.onStack stack).rank < 32 := by
  unfold TaskPc.onStack
  split
  · split_ifs
    · exact h
    · decide
  · exact h

theorem of_onStack_listen {lpc : ListenPc} {inString : List Byte}
    (h : pc.onStack stack = .listen lpc inString) : pc = .listen lpc inString := by
  unfold TaskPc.onStack at h
  split at h
  · split_ifs at h
  · exact h

end Operation

/-! ### One step -/

/-- The thread of connection `c` makes its next operation; a read into a buffer returns
any number of bytes, and a call that does not fit on the stack ends the thread. -/
def Step (stack c : Nat) (s t : Conf Memory TaskPc) : Prop :=
  ∃ e n u, Succeeds e ∧ Conf.step (taskOp c) true (.go e n) s = some u ∧
    t = { u with pc := u.pc.onStack stack }

/-- What is left of the bytes holds a `MODULE_EXIT` where one is looked for. -/
def LeavesFrom (stack : Nat) (s : Conf Memory TaskPc) : Prop :=
  s.input.foldl (Place.next stack) s.pc.place = .over true

theorem foldl_over (stack : Nat) (bytes : List Byte) (normal : Bool) :
    bytes.foldl (Place.next stack) (.over normal) = .over normal := by
  induction bytes with
  | nil => rfl
  | cons b bytes ih => exact ih

section Steps

variable {stack c : Nat} {s t : Conf Memory TaskPc}

/-- **A step changes nothing about what is left**, and where a `MODULE_EXIT` is left it
comes nearer to it. -/
theorem Step.leaves (hst : Step stack c s t) (hr : Ready c s.mem s.pc) :
    Ready c t.mem t.pc ∧ (LeavesFrom stack t ↔ LeavesFrom stack s) ∧
      (LeavesFrom stack s →
        32 * t.input.length + t.pc.rank < 32 * s.input.length + s.pc.rank) := by
  obtain ⟨e, n, u, he, hst, rfl⟩ := hst
  unfold LeavesFrom
  rcases Conf.step_cases hst with ⟨k, b, rest, hop, hin, rfl⟩ | ⟨k, hop, hin, _, rfl⟩ |
    ⟨len, k, hop, _, _, _, rfl⟩ | ⟨len, k, hop, hin, _, rfl⟩ | ⟨b, k, hop, rfl⟩ |
    ⟨p, d, k, hop, rfl⟩ | ⟨f, m, pc, hop, hf, rfl⟩
  · have hrank : ((k (.byte b)).onStack stack).rank < 32 := rank_onStack (taskOp_read_rank hop b)
    have hready := Ready.of_plain (hr.sound.read hop (.byte b)) hr.nodup (taskOp_read_plain hop _)
    refine ⟨hready.onStack, ?_, fun _ => ?_⟩
    · rw [hin, taskOp_read_place hop, List.foldl_cons]
    · rw [hin, List.length_cons]
      dsimp only
      omega
  · obtain ⟨hne, hne'⟩ := taskOp_read_eof hop
    have hready := Ready.of_plain (hr.sound.read hop .eof) hr.nodup (taskOp_read_plain hop _)
    refine ⟨hready.onStack, ?_, fun h => ?_⟩
    · rw [hin]
      exact iff_of_false (place_onStack_ne hne') hne
    · rw [hin] at h
      exact absurd h hne
  · obtain ⟨hplace, _, _, hbytes⟩ := taskOp_readBuf_place hop
    obtain ⟨hplace', hplain⟩ := hbytes (s.input.take n)
    have hfits : (k (.bytes (s.input.take n))).onStack stack = k (.bytes (s.input.take n)) :=
      onStack_eq fun d hd => by rw [hplace'] at hd; cases hd
    refine ⟨(Ready.of_plain (hr.sound.readBuf hop _) hr.nodup hplain).onStack, ?_, fun h => ?_⟩
    · rw [hfits, hplace, hplace', foldl_over, foldl_over]
    · rw [hplace, foldl_over] at h
      cases h
  · obtain ⟨hplace, hne, hplain, _⟩ := taskOp_readBuf_place hop
    refine ⟨(Ready.of_plain (hr.sound.readBuf hop _) hr.nodup hplain).onStack, ?_, fun h => ?_⟩
    · rw [hin, hplace]
      exact iff_of_false (place_onStack_ne hne) (fun h => by cases h)
    · rw [hplace, foldl_over] at h
      cases h
  · obtain ⟨hplace, hrank, hplain⟩ := taskOp_write_place hop
    refine ⟨(Ready.of_plain (hr.sound.write hop _) hr.nodup hplain).onStack, ?_, fun _ => ?_⟩
    · rw [onStack_of_place hplace hrank, hplace]
    · rw [onStack_of_place hplace hrank]
      exact Nat.add_lt_add_left hrank _
  · obtain ⟨hplace, hrank, hplain⟩ := taskOp_send_place hop
    refine ⟨(Ready.of_plain (hr.sound.send hop _) hr.nodup hplain).onStack, ?_, fun _ => ?_⟩
    · rw [onStack_of_place hplace hrank, hplace]
    · rw [onStack_of_place hplace hrank]
      exact Nat.add_lt_add_left hrank _
  · obtain ⟨hready, hplace, hrank⟩ := taskOp_act_place he hop hf hr
    refine ⟨hready.onStack, ?_, fun _ => ?_⟩
    · rw [onStack_of_place hplace hrank, hplace]
    · rw [onStack_of_place hplace hrank]
      exact Nat.add_lt_add_left hrank _

theorem taskOp_act_enabled {pc : TaskPc} {f : Env → Memory → Option (Memory × TaskPc)}
    (h : taskOp c pc = .act f) (e : Env) (m : Memory) : (f e m).isSome := by
  cases pc with
  | listen pc s =>
    cases pc with
    | dispatchKey | dispatchText =>
      cases h
      rfl
    | _ => cases h
  | frame pc =>
    cases pc with
    | writeInputPort p bs =>
      cases bs with
      | nil =>
        cases h
        rfl
      | cons b bs => cases h
    | ack | port | portTimeout | sendPacket | initAck | initReject | startWait | startTimeout |
      parse | parseTimeout | busyReject =>
      cases h
    | newFramePacket =>
      cases h
      simp only
      split_ifs
      all_goals rfl
    | newInputSocket | newFrameTask =>
      cases h
      simp only
      split_ifs
      · rfl
      · rfl
    | _ =>
      cases h
      rfl
  | loop | closeStreams | closeSocket | remove =>
    cases h
    rfl
  | _ => cases h

theorem exists_step (hl : LeavesFrom stack s) (hdone : s.pc ≠ .done) : ∃ t, Step stack c s t := by
  let e : Env := ⟨0, true, 0, 0, 0, true⟩
  have he : Succeeds e := ⟨rfl, rfl, by decide⟩
  obtain ⟨m, pc, input, output⟩ := s
  cases hop : taskOp c pc with
  | read k =>
    cases input with
    | nil => exact absurd hl (taskOp_read_eof hop).1
    | cons b rest => exact ⟨_, e, 1, _, he, Conf.step_read hop b rest, rfl⟩
  | readBuf len k =>
    rw [LeavesFrom, (taskOp_readBuf_place hop).1, foldl_over] at hl
    cases hl
  | write b k => exact ⟨_, e, 1, _, he, Conf.step_write hop, rfl⟩
  | send p d k => exact ⟨_, e, 1, _, he, Conf.step_send hop, rfl⟩
  | act f =>
    obtain ⟨r, hf⟩ := Option.isSome_iff_exists.mp (taskOp_act_enabled hop e m)
    exact ⟨_, e, 1, _, he, by rw [Conf.step_act hop, hf]; rfl, rfl⟩
  | receive p k =>
    cases pc with
    | listen pc s =>
      cases pc with
      | _ => cases hop
    | frame pc =>
      cases pc with
      | writeInputPort p bs =>
        cases bs
        · cases hop
        · cases hop
      | _ => cases hop
    | _ => cases hop
  | halt =>
    cases pc with
    | listen pc s =>
      cases pc with
      | _ => cases hop
    | frame pc =>
      cases pc with
      | writeInputPort p bs =>
        cases bs
        · cases hop
        · cases hop
      | _ => cases hop
    | done => exact absurd rfl hdone
    | dead =>
      rw [LeavesFrom] at hl
      simp only [TaskPc.place, foldl_over] at hl
      cases hl
    | _ => cases hop

/-! ### The keys that are dispatched -/

/-- Every key dispatched since `keys`, or about to be, is one of the bytes. -/
structure Heard (keys : List JInt) (bytes : List Byte) (s : Conf Memory TaskPc) : Prop where
  input : ∀ b ∈ s.input, b ∈ bytes
  next : ∀ k inString, s.pc = .listen (.dispatchKey k) inString → ∃ b ∈ bytes, k = inRead (some b)
  keys : ∃ new, s.mem.keys = keys ++ new ∧ ∀ k ∈ new, ∃ b ∈ bytes, k = inRead (some b)

theorem taskOp_read_key {pc : TaskPc} {k : Read → TaskPc} (h : taskOp c pc = .read k)
    (b : Byte) {key : JInt} {inString : List Byte}
    (hk : k (.byte b) = .listen (.dispatchKey key) inString) : key = inRead (some b) := by
  rcases taskOp_read_cases h with rfl | ⟨s, rfl⟩ | ⟨s, rfl⟩ | ⟨bs, rfl⟩ | ⟨d, rfl⟩ | rfl
  · cases h
    simp only [TaskPc.ofModule] at hk
    split_ifs at hk
    cases hk
  · cases h
    simp only [ListenPc.ofMode] at hk
    split_ifs at hk
    all_goals cases hk
  · cases h
    cases hk
    rfl
  all_goals
    cases h
    cases hk

theorem rank_of_mode {pc : TaskPc} (h : pc.place = .mode) : pc.rank ≤ 1 := by
  cases pc with
  | listen pc s =>
    cases pc with
    | mode | key | text => exact Nat.zero_le _
    | exitAck => cases h
    | _ => exact Nat.le_refl _
  | frame pc =>
    cases pc with
    | newFramePacket p =>
      simp only [TaskPc.place, FramePc.place, Place.ofPort] at h
      split_ifs at h
    | _ => cases h
  | _ => cases h

theorem not_dispatchKey {pc pc' : TaskPc} (hplace : pc'.place = pc.place)
    (hrank : pc'.rank < pc.rank) (key : JInt) (inString : List Byte) :
    pc' ≠ .listen (.dispatchKey key) inString := by
  rintro rfl
  have hmode := rank_of_mode hplace.symm
  have hone : TaskPc.rank (.listen (.dispatchKey key) inString) = 1 := rfl
  omega

theorem taskOp_act_keys {pc pc' : TaskPc} {f : Env → Memory → Option (Memory × TaskPc)} {e : Env}
    {m m' : Memory} (h : taskOp c pc = .act f) (hf : f e m = some (m', pc')) (hs : Sound c m pc) :
    m'.keys = m.keys ∨
      ∃ k inString, pc = .listen (.dispatchKey k) inString ∧ m'.keys = m.keys ++ [k] := by
  cases pc with
  | listen pc s =>
    cases pc with
    | dispatchKey =>
      cases h
      cases hf
      exact Or.inr ⟨_, s, rfl, Memory.keys_post_key m _⟩
    | dispatchText =>
      cases h
      cases hf
      exact Or.inl (by simp [Memory.keys, Memory.post, InputEvent.key?])
    | _ => cases h
  | frame pc => exact Or.inl (startOp_act h hf hs).2.2
  | loop | closeStreams | closeSocket | remove =>
    cases h
    cases hf
    exact Or.inl rfl
  | _ => cases h

theorem Heard.step {keys : List JInt} {bytes : List Byte} (h : Heard keys bytes s)
    (hr : Ready c s.mem s.pc) (hl : LeavesFrom stack s) (hst : Step stack c s t) :
    Heard keys bytes t := by
  obtain ⟨e, n, u, he, hst, rfl⟩ := hst
  rcases Conf.step_cases hst with ⟨k, b, rest, hop, hin, rfl⟩ | ⟨k, hop, hin, _, rfl⟩ |
    ⟨len, k, hop, _, _, _, rfl⟩ | ⟨len, k, hop, _, _, rfl⟩ | ⟨b, k, hop, rfl⟩ |
    ⟨p, d, k, hop, rfl⟩ | ⟨f, m, pc, hop, hf, rfl⟩
  · have hmem := h.input
    rw [hin] at hmem
    refine ⟨fun x hx => hmem x (List.mem_cons_of_mem b hx), fun key inString hk => ?_, h.keys⟩
    exact ⟨b, hmem b List.mem_cons_self, taskOp_read_key hop b (of_onStack_listen hk)⟩
  · rw [LeavesFrom, hin] at hl
    exact absurd hl (taskOp_read_eof hop).1
  · rw [LeavesFrom, (taskOp_readBuf_place hop).1, foldl_over] at hl
    cases hl
  · rw [LeavesFrom, (taskOp_readBuf_place hop).1, foldl_over] at hl
    cases hl
  · obtain ⟨hplace, hrank, _⟩ := taskOp_write_place hop
    refine ⟨h.input, fun key s hk => ?_, h.keys⟩
    exact absurd (of_onStack_listen hk) (not_dispatchKey hplace hrank key s)
  · obtain ⟨hplace, hrank, _⟩ := taskOp_send_place hop
    refine ⟨h.input, fun key s hk => ?_, h.keys⟩
    exact absurd (of_onStack_listen hk) (not_dispatchKey hplace hrank key s)
  · obtain ⟨_, hplace, hrank⟩ := taskOp_act_place he hop hf hr
    refine ⟨h.input, fun key s hk => ?_, ?_⟩
    · exact absurd (of_onStack_listen hk) (not_dispatchKey hplace hrank key s)
    obtain ⟨new, hnew, hall⟩ := h.keys
    rcases taskOp_act_keys hop hf hr.sound with hm | ⟨key, s, hpc, hm⟩
    · exact ⟨new, hm.trans hnew, hall⟩
    · refine ⟨new ++ [key], by rw [hm, hnew, List.append_assoc], fun k hk => ?_⟩
      rcases List.mem_append.mp hk with hk | hk
      · exact hall k hk
      · rw [List.mem_singleton.mp hk]
        exact h.next key s hpc

end Steps

/-! ### A closed connection -/

/-- A connection that has just been made. -/
structure Fresh (c : Nat) (m : Memory) : Prop where
  running : m.running c = true
  connected : m.frame.connected = false
  opened : c ∉ m.closed
  nodup : m.connections.Nodup

/-- The thread of a new connection that receives these bytes and then the end of the
stream. -/
def received (m : Memory) (bytes : List Byte) : Conf Memory TaskPc := ⟨m, .loop, bytes, []⟩

/-- `run` has returned by its normal exit, the socket is closed and the connection is
removed. -/
def Removed (c : Nat) (s : Conf Memory TaskPc) : Prop :=
  s.pc = .done ∧ c ∈ s.mem.closed ∧ c ∉ s.mem.connections

/-- However the environment answers, `run` returns by its normal exit and cleans up, and no
key is dispatched that was not received. -/
def CleanedUp (stack c : Nat) (m : Memory) (bytes : List Byte) : Prop :=
  Inevitable (Step stack c) (Removed c) (received m bytes) ∧
    ∀ n t, Path (Step stack c) n (received m bytes) t →
      ∃ new, t.mem.keys = m.keys ++ new ∧ ∀ k ∈ new, ∃ b ∈ bytes, k = inRead (some b)

section Cleanup

variable {stack c : Nat} {m : Memory}

theorem Fresh.ready (h : Fresh c m) : Ready c m .loop :=
  .of_plain ⟨h.running, h.connected, nofun, Or.inr h.opened⟩ h.nodup rfl

theorem cleanedUp_of_leaves {bytes : List Byte} (h : Fresh c m) (hl : Leaves stack bytes) :
    CleanedUp stack c m bytes := by
  constructor
  · refine Inevitable.of_rank (I := fun s => Ready c s.mem s.pc ∧ LeavesFrom stack s)
      (fun s => 32 * s.input.length + s.pc.rank) ?_ ?_ ⟨h.ready, hl⟩
    · rintro s ⟨hr, hl⟩ hne
      refine exists_step hl (fun hdone => hne ⟨hdone, ?_, hr.removed hdone⟩)
      exact hr.closed (Or.inr (Or.inr hdone))
    · rintro s t ⟨hr, hl⟩ _ hst
      obtain ⟨hready, hleaves, hrank⟩ := hst.leaves hr
      exact ⟨⟨hready, hleaves.mpr hl⟩, hrank hl⟩
  · intro n t hp
    have hinv := hp.invariant
      (I := fun s => (Ready c s.mem s.pc ∧ LeavesFrom stack s) ∧ Heard m.keys bytes s) ?_
      ⟨⟨h.ready, hl⟩, fun _ hb => hb, nofun, [], (List.append_nil _).symm, nofun⟩
    · exact hinv.2.keys
    · rintro s t hst ⟨⟨hr, hl⟩, hh⟩
      obtain ⟨hready, hleaves, _⟩ := hst.leaves hr
      exact ⟨⟨hready, hleaves.mpr hl⟩, hh.step hr hl hst⟩

/-- Without a `MODULE_EXIT` the thread never returns by its normal exit. -/
theorem leaves_of_cleanedUp {bytes : List Byte} (h : Fresh c m)
    (hc : CleanedUp stack c m bytes) : Leaves stack bytes := by
  by_contra hl
  obtain ⟨t, ⟨hdone, _⟩, _, hl'⟩ := hc.1.exists_of_invariant
    (I := fun s => Ready c s.mem s.pc ∧ ¬ LeavesFrom stack s)
    (fun s t hst hi => ⟨(hst.leaves hi.1).1, fun hlt => hi.2 ((hst.leaves hi.1).2.1.mp hlt)⟩)
    ⟨h.ready, hl⟩
  refine hl' ?_
  rw [LeavesFrom, hdone]
  exact foldl_over _ _ _

/-- **A closed connection is cleaned up if and only if a `MODULE_EXIT` was received**, at
the place of a module byte, before any text, behind no invalid frame port and behind no
more bytes before a start `ACK` than calls of the private `start` fit on the stack. -/
theorem closed_cleanedUp (bytes : List Byte) (h : Fresh c m) :
    CleanedUp stack c m bytes ↔ Leaves stack bytes :=
  ⟨leaves_of_cleanedUp h, cleanedUp_of_leaves h⟩

end Cleanup

/-- A key, a frame session with two bytes before its start `ACK`, and the way out. -/
theorem closed_cleanedUp_key : CleanedUp 2 0 { connections := [0] }
    [1, 1, 23, 0, 2, 0, 0, 0x9c, 0x40, 5, 6, 0xff, 7, 0xff, 0] :=
  (closed_cleanedUp _ ⟨rfl, rfl, List.not_mem_nil, by decide⟩).mpr (by decide)

/-- With one byte more the thread dies in the private `start`. -/
example : ¬ Leaves 2 [2, 0, 0, 0x9c, 0x40, 5, 6, 7, 0xff, 0xff, 0] := by decide

/-- **A connection closed without a byte is never cleaned up**, however large the stack. -/
theorem closed_kept : ¬ ∃ stack, ∀ c m bytes, Fresh c m → CleanedUp stack c m bytes := by
  rintro ⟨stack, hclaim⟩
  have h : Fresh 0 { connections := [0] } := ⟨rfl, rfl, List.not_mem_nil, by decide⟩
  have hl := leaves_of_cleanedUp h (hclaim 0 _ [] h)
  cases hl

end MikaAudio.Server
