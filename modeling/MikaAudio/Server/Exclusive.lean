import MikaAudio.Server.Communication
import Mathlib.Logic.Function.Basic

/-!
# Many connections and the one `FrameModule`

Every connection has a `CommunicationTask`, and all of them share the memory.  A
connection is inside a frame session from the first `ACK` that `FrameModule.start`
writes for it to the end of that call.

The test `if (!connected)` should keep a second connection out, but `connected` is
never set.  So there is at most one session exactly as long as the connections keep
out of each other's way by themselves: `Uncontended` says where the test would have to
come out the other way.
-/

namespace MikaAudio.Server

open Thread Interleave

/-! ### All connections -/

/-- The connection is inside `FrameModule.start`. -/
def TaskPc.inStart : TaskPc → Bool
  | .frame _ => true
  | _ => false

/-- It has found `connected` to be `false` there. -/
def TaskPc.past : TaskPc → Bool
  | .frame .setInputModule => false
  | .frame .testConnected => false
  | .frame .busyReject => false
  | .frame _ => true
  | _ => false

/-- All connections of the server; one that has not been made stands at the beginning
of `run`.  `sessions` are those inside a frame session, `answers` what the last call of
`start` has written for a connection, and `contended` tells whether another connection
was inside a session when its request was read.  The program has none of these three. -/
structure System where
  memory : Memory := {}
  tasks : Nat → TaskPc := fun _ => .loop
  sessions : List Nat := []
  answers : Nat → List Byte := fun _ => []
  contended : Nat → Bool := fun _ => false

namespace System

/-- Who moves. -/
inductive Label
  /-- The thread of connection `c` makes its next operation, with this answer. -/
  | task (c : Nat) (r : Reply Env)
  /-- `ModuleManager.onDestroy` calls `frameModule.onDestroy()`. -/
  | destroy

/-- The byte an operation has written. -/
def written {ε μ σ : Type} : Op ε μ σ → Reply ε → List Byte
  | .write b _, .done true => [b]
  | _, _ => []

/-- The thread of connection `c` goes on with `m` and `pc`. -/
def advance (c : Nat) (r : Reply Env) (m : Memory) (pc : TaskPc) (s : System) : System where
  memory := m
  tasks := Function.update s.tasks c pc
  sessions :=
    if pc.inStart = false then s.sessions.filter (· ≠ c)
    else if s.tasks c = .frame .ack ∧ written (taskOp c (s.tasks c)) r ≠ [] then c :: s.sessions
    else s.sessions
  answers := Function.update s.answers c
    (if pc = .frame .setInputModule then []
    else if (s.tasks c).inStart then s.answers c ++ written (taskOp c (s.tasks c)) r
    else s.answers c)
  contended := Function.update s.contended c
    (if pc = .frame .setInputModule then decide (∃ d ∈ s.sessions, d ≠ c) else s.contended c)

/-- One step of one connection, or of the manager. -/
def step (l : Label) (s : System) : Option System :=
  match l with
  | .task c r =>
    ((taskOp c (s.tasks c)).exec r s.memory).map fun next => s.advance c r next.1 next.2
  | .destroy => some { s with memory := s.memory.onFrame FrameModule.stop }

/-- At most one connection is inside a frame session, and a request made while another
one is gets no answer but `REJECT`. -/
structure Exclusive (s : System) : Prop where
  sessions : ∀ c ∈ s.sessions, ∀ d ∈ s.sessions, c = d
  answers : ∀ c, s.contended c = true → s.answers c <+: [reject]

/-- A `MODULE_FRAME` request is read only while no other connection is inside a session,
and `connected` is tested only while no other connection is past that test. -/
def Uncontended : Label → System → Prop
  | .task c r, s =>
    (s.tasks c = .module → r = .read (.byte moduleFrame) → ∀ d ∈ s.sessions, d = c) ∧
    (s.tasks c = .frame .testConnected → ∀ d, (s.tasks d).past = true → d = c)
  | .destroy, _ => True

end System

/-! ### One step of one connection -/

/-- What a step of a connection that is not rejected does to its place in `start`. -/
structure StartStep (pc : TaskPc) (r : Reply Env) (m' : Memory) (pc' : TaskPc) : Prop where
  connected : m'.frame.connected = false
  busy : pc' ≠ .frame .busyReject
  past : pc'.past = true → pc.past = true ∨ pc = .frame .testConnected
  stays : pc.past = true → pc'.inStart = true → pc'.past = true
  request : pc' = .frame .setInputModule → pc = .module ∧ r = .read (.byte moduleFrame)
  ack : pc = .frame .ack → r = .done true → pc'.past = true

section Step

variable {c : Nat} {pc : TaskPc} {r : Reply Env} {m m' : Memory} {pc' : TaskPc}

/-- Past the test a connection stays past it. -/
theorem StartStep.of_past (hc : m'.frame.connected = false)
    (h : pc.past = true ∨ pc = .frame .testConnected) (h' : pc'.past = true) :
    StartStep pc r m' pc' where
  connected := hc
  busy := fun heq => by rw [heq] at h'; cases h'
  past := fun _ => h
  stays := fun _ _ => h'
  request := fun heq => by rw [heq] at h'; cases h'
  ack := fun _ _ => h'

theorem TaskPc.inStart_of_past (h : pc.past = true) : pc.inStart = true := by
  cases pc with
  | frame => rfl
  | _ => cases h

theorem StartStep.of_left (hc : m'.frame.connected = false) (h : pc ≠ .frame .ack)
    (h' : pc'.inStart = false) : StartStep pc r m' pc' where
  connected := hc
  busy := fun heq => by rw [heq] at h'; cases h'
  past := fun hp => by rw [TaskPc.inStart_of_past hp] at h'; cases h'
  stays := fun _ hin => by rw [h'] at hin; cases hin
  request := fun heq => by rw [heq] at h'; cases h'
  ack := fun heq => absurd heq h

theorem startOp_startStep {pc : FramePc} (hb : pc ≠ .busyReject) (hc : m.frame.connected = false)
    (h : (taskOp c (.frame pc)).exec r m = some (m', pc')) : StartStep (.frame pc) r m' pc' := by
  cases pc with
  | busyReject => exact absurd rfl hb
  | setInputModule =>
    obtain ⟨_, rfl, hf⟩ := Op.exec_act h
    cases hf
    exact ⟨hc, by simp, by simp [TaskPc.past], by simp [TaskPc.past], by simp, by simp⟩
  | testConnected =>
    obtain ⟨_, rfl, hf⟩ := Op.exec_act h
    simp only [hc] at hf
    cases hf
    exact .of_past hc (Or.inr rfl) rfl
  | port bs =>
    obtain ⟨x, rfl, rfl, rfl⟩ := Op.exec_read h
    refine .of_past hc (Or.inl rfl) ?_
    cases x with
    | timeout | error =>
      rfl
    | _ =>
      simp only [FramePc.ofPortBytes]
      split_ifs
      · rfl
      · rfl
  | startWait d =>
    obtain ⟨x, rfl, rfl, rfl⟩ := Op.exec_read h
    refine .of_past hc (Or.inl rfl) ?_
    cases x with
    | byte =>
      simp only
      split_ifs
      · rfl
      · rfl
    | _ => rfl
  | parse =>
    obtain ⟨x, rfl, rfl, rfl⟩ := Op.exec_read h
    refine .of_past hc (Or.inl rfl) ?_
    cases x with
    | byte =>
      simp only
      split_ifs
      · rfl
      · rfl
    | _ => rfl
  | writeInputPort p bs =>
    cases bs with
    | nil =>
      obtain ⟨_, rfl, hf⟩ := Op.exec_act h
      cases hf
      exact .of_past hc (Or.inl rfl) rfl
    | cons =>
      obtain ⟨_, rfl, rfl, rfl⟩ := Op.exec_write h
      refine .of_past hc (Or.inl rfl) ?_
      split_ifs
      · rfl
      · rfl
  | newFramePacket p =>
    obtain ⟨_, rfl, hf⟩ := Op.exec_act h
    split_ifs at hf
    · cases hf
      exact .of_past hc (Or.inl rfl) rfl
    · cases hf
      exact .of_left hc (by simp) rfl
    · cases hf
      exact .of_past hc (Or.inl rfl) rfl
  | newInputSocket p =>
    obtain ⟨_, rfl, hf⟩ := Op.exec_act h
    split_ifs at hf
    · cases hf
      exact .of_past hc (Or.inl rfl) rfl
    · cases hf
      exact .of_past hc (Or.inl rfl) rfl
  | getInputPort p =>
    obtain ⟨_, rfl, hf⟩ := Op.exec_act h
    cases hf
    split
    · exact .of_past hc (Or.inl rfl) rfl
    · exact .of_left hc (by simp) rfl
  | newFrameTask p =>
    obtain ⟨_, rfl, hf⟩ := Op.exec_act h
    split_ifs at hf
    · cases hf
      exact .of_past hc (Or.inl rfl) rfl
    · cases hf
      exact .of_left hc (by simp) rfl
  | clearConnected =>
    obtain ⟨_, rfl, hf⟩ := Op.exec_act h
    cases hf
    exact .of_left rfl (by simp) rfl
  | startTimeout =>
    obtain ⟨_, rfl, rfl, rfl⟩ := Op.exec_write h
    split_ifs
    · exact .of_left hc (by simp) rfl
    · exact .of_past hc (Or.inl rfl) rfl
  | stopInputTask =>
    obtain ⟨_, rfl, hf⟩ := Op.exec_act h
    cases hf
    exact .of_left (by simpa [Memory.onFrame] using hc) (by simp) rfl
  | catchInputTask =>
    obtain ⟨_, rfl, hf⟩ := Op.exec_act h
    cases hf
    exact .of_left (by simpa [Memory.onFrame] using hc) (by simp) rfl
  | ack | portTimeout | initAck | initReject | parseTimeout =>
    obtain ⟨ok, rfl, rfl, rfl⟩ := Op.exec_write h
    refine .of_past hc (Or.inl rfl) ?_
    split_ifs
    · rfl
    · rfl
  | sendPacket =>
    obtain ⟨ok, rfl, rfl, rfl⟩ := Op.exec_send h
    refine .of_past hc (Or.inl rfl) ?_
    split_ifs
    · rfl
    · rfl
  | testInstance =>
    obtain ⟨_, rfl, hf⟩ := Op.exec_act h
    cases hf
    refine .of_past hc (Or.inl rfl) ?_
    split_ifs
    · rfl
    · rfl
  | _ =>
    obtain ⟨_, rfl, hf⟩ := Op.exec_act h
    cases hf
    exact .of_past (by simpa [Memory.onFrame] using hc) (Or.inl rfl) rfl

theorem taskOp_startStep (hb : pc ≠ .frame .busyReject) (hc : m.frame.connected = false)
    (h : (taskOp c pc).exec r m = some (m', pc')) : StartStep pc r m' pc' := by
  cases pc with
  | frame pc => exact startOp_startStep (fun heq => hb (congrArg TaskPc.frame heq)) hc h
  | module =>
    obtain ⟨x, rfl, rfl, rfl⟩ := Op.exec_read h
    cases x with
    | byte b =>
      simp only [TaskPc.ofModule]
      split_ifs with _ _ hb
      · exact .of_left hc (by simp) rfl
      · exact .of_left hc (by simp) rfl
      · exact ⟨hc, by simp, by simp [TaskPc.past], by simp [TaskPc.past],
          fun _ => ⟨rfl, by rw [hb]⟩, by simp⟩
      · exact .of_left hc (by simp) rfl
    | _ => exact .of_left hc (by simp) rfl
  | listen pc inString =>
    cases pc with
    | mode | key =>
      obtain ⟨x, rfl, rfl, rfl⟩ := Op.exec_read h
      cases x with
      | _ => exact .of_left hc (by simp) rfl
    | text =>
      obtain ⟨x, rfl, rfl, rfl⟩ := Op.exec_readBuf h
      cases x with
      | _ => exact .of_left hc (by simp) rfl
    | dispatchKey | dispatchText =>
      obtain ⟨_, rfl, hf⟩ := Op.exec_act h
      cases hf
      exact .of_left hc (by simp) rfl
    | _ =>
      obtain ⟨ok, rfl, rfl, rfl⟩ := Op.exec_write h
      cases ok
      · exact .of_left hc (by simp) rfl
      · exact .of_left hc (by simp) rfl
  | moduleTimeout =>
    obtain ⟨ok, rfl, rfl, rfl⟩ := Op.exec_write h
    cases ok
    · exact .of_left hc (by simp) rfl
    · exact .of_left hc (by simp) rfl
  | exitAck =>
    obtain ⟨_, rfl, rfl, rfl⟩ := Op.exec_write h
    exact .of_left hc (by simp) rfl
  | done | dead => cases h
  | loop | closeStreams =>
    obtain ⟨_, rfl, hf⟩ := Op.exec_act h
    cases hf
    refine .of_left hc (by simp) ?_
    split_ifs
    · rfl
    · rfl
  | _ =>
    obtain ⟨_, rfl, hf⟩ := Op.exec_act h
    cases hf
    exact .of_left hc (by simp) rfl

end Step

/-! ### At most one connection is past the test -/

namespace System

/-- `connected` is `false`, one connection at most is past the test, those inside a session
are past it, and no request was made meanwhile. -/
structure Alone (s : System) : Prop where
  connected : s.memory.frame.connected = false
  busy : ∀ c, s.tasks c ≠ .frame .busyReject
  past : ∀ c d, (s.tasks c).past = true → (s.tasks d).past = true → c = d
  sessions : ∀ c ∈ s.sessions, (s.tasks c).past = true
  contended : ∀ c, s.contended c = false

theorem Alone.step {l : Label} {s t : System} (h : Alone s) (hok : Uncontended l s)
    (hst : step l s = some t) : Alone t := by
  cases l with
  | destroy =>
    cases hst
    have hstop : s.memory.frame.stop = s.memory.frame := by
      rw [FrameModule.stop, h.connected, if_neg Bool.false_ne_true]
    exact ⟨by rw [← h.connected, ← hstop]; rfl, h.busy, h.past, h.sessions, h.contended⟩
  | task c r =>
    obtain ⟨⟨m, pc⟩, hexec, rfl⟩ := Option.map_eq_some_iff.mp hst
    obtain ⟨hconn, hbusy, hpast, hstays, hrequest, hack⟩ :=
      taskOp_startStep (h.busy c) h.connected hexec
    -- nobody else is past the test when this connection is
    have halone : pc.past = true → ∀ d, (s.tasks d).past = true → d = c := by
      intro hp d hd
      rcases hpast hp with hc | hc
      · exact h.past d c hd hc
      · exact hok.2 hc d hd
    have hother : ∀ {d}, d ≠ c → (s.advance c r m pc).tasks d = s.tasks d :=
      fun hd => Function.update_of_ne hd _ _
    have hself : (s.advance c r m pc).tasks c = pc := Function.update_self c _ _
    refine ⟨hconn, fun d => ?_, fun d e hd he => ?_, fun d hd => ?_, fun d => ?_⟩
    · by_cases hdc : d = c
      · rw [hdc, hself]
        exact hbusy
      · rw [hother hdc]
        exact h.busy d
    · by_cases hdc : d = c
      · by_cases hec : e = c
        · rw [hdc, hec]
        · rw [hdc, hself] at hd
          rw [hother hec] at he
          rw [hdc, halone hd e he]
      · by_cases hec : e = c
        · rw [hec, hself] at he
          rw [hother hdc] at hd
          rw [hec, halone he d hd]
        · rw [hother hdc] at hd
          rw [hother hec] at he
          exact h.past d e hd he
    · have hd : d ∈ if pc.inStart = false then s.sessions.filter (· ≠ c)
          else if s.tasks c = .frame .ack ∧ written (taskOp c (s.tasks c)) r ≠ []
            then c :: s.sessions else s.sessions := hd
      by_cases hdc : d = c
      · rw [hdc, hself]
        rw [hdc] at hd
        split_ifs at hd with hin hnew
        · simp at hd
        · refine hack hnew.1 ?_
          have hw := hnew.2
          rw [hnew.1] at hw
          cases r with
          | done =>
            simp only [written, taskOp, startOp] at hw
            rename_i ok
            cases ok
            · exact absurd rfl hw
            · rfl
          | _ =>
            simp only [written, taskOp, startOp] at hw
            exact absurd rfl hw
        · exact hstays (h.sessions c hd) (by simpa using hin)
      · rw [hother hdc]
        refine h.sessions d ?_
        split_ifs at hd with hin hnew
        · exact (List.mem_filter.mp hd).1
        · exact (List.mem_cons.mp hd).resolve_left hdc
        · exact hd
    · by_cases hdc : d = c
      · rw [hdc]
        show Function.update s.contended c _ c = false
        rw [Function.update_self]
        split_ifs with hpc
        · obtain ⟨hm, hr⟩ := hrequest hpc
          simpa using hok.1 hm hr
        · exact h.contended c
      · show Function.update s.contended c _ d = false
        rw [Function.update_of_ne hdc]
        exact h.contended d

/-- **Screen forwarding is exclusive** as long as no request is read while another
connection is inside a session, and `connected` is not tested while another connection is
past that test. -/
theorem forwarding_exclusive {s : System} (h : Reach step Uncontended {} s) : Exclusive s := by
  have hinit : Alone {} :=
    ⟨rfl, fun _ => by simp, fun _ _ hc => (nomatch hc), fun _ hc => (nomatch hc), fun _ => rfl⟩
  have halone : Alone s := h.invariant hinit (fun _ _ _ hs hok hst => hs.step hok hst)
  constructor
  · exact fun c hc d hd => halone.past c d (halone.sessions c hc) (halone.sessions d hd)
  · intro c hc
    rw [halone.contended c] at hc
    cases hc

/-- What the environment answers in the runs below. -/
def env : Env := ⟨40001, true, 1080, 1920, 7, true⟩

/-- Connection `c` asks for the frame module and gets its first `ACK`. -/
def opening (c : Nat) : List Label :=
  [.task c (.env env), .task c (.read (.byte moduleFrame)), .task c (.env env),
    .task c (.env env), .task c (.done true)]

/-- The read of the port fails, and `start` is left. -/
def breaking (c : Nat) : List Label :=
  [.task c (.read .error), .task c (.env env), .task c (.env env)]

/-- Only the first two connections move, and they keep out of each other's way. -/
def TakeTurns : Label → System → Prop
  | .task c _, s => c < 2 ∧ (s.tasks c = .module → ∀ d ∈ s.sessions, d = c) ∧
    (s.tasks c = .frame .testConnected → ∀ d < 2, (s.tasks d).past = true → d = c)
  | .destroy, _ => True

instance : ∀ (l : Label) (s : System), Decidable (TakeTurns l s)
  | .task _ _, _ => inferInstanceAs (Decidable (_ ∧ _ ∧ _))
  | .destroy, _ => inferInstanceAs (Decidable True)

theorem uncontended_of_takeTurns {s : System} (h : Reach step TakeTurns {} s) :
    Reach step Uncontended {} s := by
  refine h.strengthen (I := fun s => ∀ d, 2 ≤ d → s.tasks d = .loop) (fun _ _ => rfl) ?_ ?_
  · intro s t l hs hl hst d hd
    cases l with
    | task c r =>
      obtain ⟨⟨m, pc⟩, -, rfl⟩ := Option.map_eq_some_iff.mp hst
      have hne : d ≠ c := fun h => by
        have := hl.1
        omega
      exact (Function.update_of_ne hne _ _).trans (hs d hd)
    | destroy =>
      obtain rfl := Option.some.inj hst
      exact hs d hd
  · intro s l hs hl
    cases l with
    | task c r =>
      obtain ⟨-, hrequest, htest⟩ := hl
      refine ⟨fun hc _ => hrequest hc, fun hc d hpast => ?_⟩
      rcases Nat.lt_or_ge d 2 with hd | hd
      · exact htest hc d hd hpast
      · rw [hs d hd] at hpast
        cases hpast
    | destroy => trivial

/-- The first connection breaks down inside its session, and then the second one has one. -/
theorem forwarding_exclusive_turns : ∃ s : System, s.sessions = [1] ∧ s.answers 0 = [ack] ∧
    s.answers 1 = [ack] ∧ Exclusive s := by
  obtain ⟨s, hs, hk⟩ := Reach.exists_of_run (show
    (run (fun l s => if TakeTurns l s then step l s else none)
      (opening 0 ++ breaking 0 ++ opening 1) {}).map
      (fun s => (s.sessions, s.answers 0, s.answers 1)) = some ([1], [ack], [ack]) by
        decide +kernel)
  simp only [Prod.mk.injEq] at hk
  obtain ⟨hsessions, hfirst, hsecond⟩ := hk
  exact ⟨s, hsessions, hfirst, hsecond, forwarding_exclusive (uncontended_of_takeTurns hs)⟩

/-- **Two connections are inside a session at once**, and the second one's request was
answered with `ACK`. -/
theorem forwarding_shared : ¬ ∀ s, Reach step (fun _ _ => True) {} s → Exclusive s := by
  intro hclaim
  obtain ⟨s, hs, hk⟩ := Reach.exists_of_run (show
    (run (fun l s => if True then step l s else none) (opening 0 ++ opening 1) {}).map
      (fun s => (s.sessions, s.contended 1, s.answers 1)) = some ([1, 0], true, [ack]) by decide)
  simp only [Prod.mk.injEq] at hk
  have hone := (hclaim s hs).sessions 1 (by simp [hk.1]) 0 (by simp [hk.1])
  cases hone

end System

end MikaAudio.Server
