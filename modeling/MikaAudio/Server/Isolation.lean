import MikaAudio.Server.Escape

/-!
# One session among other connections

The fields of the one `FrameModule` belong to whoever wrote them last.  What a call of
`start` needs of them it keeps exactly as long as nobody else begins a call of `start`
meanwhile, and nobody whose own call fails stops the tasks in the fields: these are the
three operations `Apart` speaks about.  All others are made by a connection that is itself
in the middle of a session, and under `Apart` there is only one of these at a time.
-/

namespace MikaAudio.Server

open Thread Interleave

/-- The task, its socket, its packet and its input module are those of connection `c`. -/
def InputTask.IsOf (c : Nat) (t : InputTask) : Prop :=
  t.owner = c ∧ t.socket.map Socket.owner = some c ∧ t.packet = some c ∧ t.inputModule = some c

/-- The session of connection `c` is its own, and both its tasks run. -/
structure Isolated (c : Nat) (fm : FrameModule) : Prop where
  frameTask : ∃ t, fm.currentTask = some t ∧ t.owner = c ∧ t.task.isRunning = true
  inputTask : ∃ t, fm.currentInput = some t ∧ t.IsOf c ∧ t.task.isRunning = true
  inputSocket : fm.inputSocket.map Socket.owner = some c
  inputPacket : fm.inputPacket = some c
  inputModule : fm.inputModule = some c

/-- Inside `parse`, up to the first `stop()`. -/
def TaskPc.streams : TaskPc → Bool
  | .frame .parse => true
  | .frame .parseTimeout => true
  | .frame .stopFrameTask => true
  | _ => false

/-- The operation leaves a call of `start` in this stage the fields it needs. -/
def TaskPc.spares : TaskPc → Nat → Bool
  | .frame .setInputModule, n => decide (n = 0)
  | .frame .catchFrameTask, n => decide (n < 4 ∨ n = 7)
  | .frame .catchInputTask, n => decide (n < 6)
  | _, _ => true

namespace Host

/-- `inputModule` is assigned only while no other connection is inside a session, and a
failed call of `start` stops no task of another one. -/
def Apart (l : Label) (s : Host) : Prop :=
  match l with
  | .task c _ => ∀ d ∈ s.accepted, (s.tasks c).spares (s.tasks d).stage = true
  | _ => True

instance (l : Label) (s : Host) : Decidable (Apart l s) := by
  induction l using Label.casesOn
  all_goals
    dsimp only [Apart]
    infer_instance

end Host

/-! ### What a call of `start` has in the fields -/

/-- Connection `c`, in stage `n`, has in the fields what it put there. -/
structure Holds (c : Nat) (fm : FrameModule) (n : Nat) : Prop where
  inputModule : 1 ≤ n → fm.inputModule = some c
  inputSocket : 2 ≤ n → fm.inputSocket.map Socket.owner = some c ∧ fm.inputPacket = some c
  frameTask : 3 ≤ n → ∃ t, fm.currentTask = some t ∧ t.owner = c ∧
    (4 ≤ n → n ≤ 6 → t.task.isRunning = true)
  inputTask : 5 ≤ n → ∃ t, fm.currentInput = some t ∧ t.IsOf c ∧
    (6 ≤ n → t.task.isRunning = true)

section Operation

variable {c d n : Nat} {fm fm' : FrameModule} {pc pc' : TaskPc}

theorem Holds.zero : Holds c fm 0 := ⟨by omega, by omega, by omega, by omega⟩

theorem Holds.of_stage {n' : Nat} (h : Holds c fm n) (hn : n' = n ∨ n' = 0) : Holds c fm n' := by
  rcases hn with rfl | rfl
  · exact h
  · exact .zero

theorem Holds.isolated (h : Holds c fm 6) : Isolated c fm := by
  obtain ⟨t, ht, howner, hrun⟩ := h.frameTask (by decide)
  obtain ⟨u, hu, hof, hrun'⟩ := h.inputTask (by decide)
  obtain ⟨hsocket, hpacket⟩ := h.inputSocket (by decide)
  exact ⟨⟨t, ht, howner, hrun (by decide) (by decide)⟩, ⟨u, hu, hof, hrun' (by decide)⟩, hsocket,
    hpacket, h.inputModule (by decide)⟩

theorem Fields.holds (h : Fields c fm pc fm' pc') (hc : Holds c fm pc.stage) :
    Holds c fm' pc'.stage := by
  cases h with
  | quiet connected instancePtr width height _ hstage =>
    exact Holds.of_stage ⟨hc.inputModule, hc.inputSocket, hc.frameTask, hc.inputTask⟩ hstage
  | setInputModule => exact ⟨fun _ => rfl, by simp, by simp, by simp⟩
  | newInputSocket p port =>
    exact ⟨fun _ => hc.inputModule (by simp), fun _ => ⟨rfl, rfl⟩, by simp, by simp⟩
  | newFrameTask p =>
    refine ⟨fun _ => hc.inputModule (by simp), fun _ => hc.inputSocket (by simp), fun _ => ?_,
      by simp⟩
    exact ⟨_, FrameModule.currentTask_new fm _, rfl, by simp⟩
  | startFrameTask =>
    obtain ⟨t, ht, howner, _⟩ := hc.frameTask (by simp)
    refine ⟨fun _ => by simpa using hc.inputModule, fun _ => by simpa using hc.inputSocket,
      fun _ => ?_, by simp⟩
    exact ⟨_, FrameModule.currentTask_on Task.start fm ht, howner,
      fun _ _ => Task.isRunning_start t.task⟩
  | newInputTask =>
    obtain ⟨hsocket, hpacket⟩ := hc.inputSocket (by simp)
    have hmodule := hc.inputModule (by simp)
    obtain ⟨t, ht, howner, hrun⟩ := hc.frameTask (by simp)
    refine ⟨fun _ => hmodule, fun _ => ⟨hsocket, hpacket⟩, fun _ => ?_, fun _ => ?_⟩
    · exact ⟨t, ht, howner, fun _ _ => hrun (by simp) (by simp)⟩
    · exact ⟨_, FrameModule.currentInput_new fm _, ⟨rfl, hsocket, hpacket, hmodule⟩, by simp⟩
  | startInputTask =>
    obtain ⟨t, ht, howner, hrun⟩ := hc.frameTask (by simp)
    obtain ⟨u, hu, hof, _⟩ := hc.inputTask (by simp)
    refine ⟨fun _ => by simpa using hc.inputModule, fun _ => by simpa using hc.inputSocket,
      fun _ => ?_, fun _ => ?_⟩
    · exact ⟨t, by simpa using ht, howner, fun _ _ => hrun (by simp) (by simp)⟩
    · exact ⟨_, FrameModule.currentInput_on Task.start fm hu, hof,
        fun _ => Task.isRunning_start u.task⟩
  | stopFrameTask =>
    obtain ⟨t, ht, howner, _⟩ := hc.frameTask (by simp)
    obtain ⟨u, hu, hof, hrun⟩ := hc.inputTask (by simp)
    refine ⟨fun _ => by simpa using hc.inputModule, fun _ => by simpa using hc.inputSocket,
      fun _ => ?_, fun _ => ?_⟩
    · exact ⟨_, FrameModule.currentTask_on Task.stop fm ht, howner, by simp⟩
    · exact ⟨u, by simpa using hu, hof, fun _ => hrun (by simp)⟩
  | stopInputTask => exact .zero
  | catchFrameTask => exact .zero
  | catchInputTask => exact .zero

theorem Fields.holds_of_ne (h : Fields d fm pc fm' pc') (hc : Holds c fm n)
    (hspares : pc.spares n = true) (hstage : 1 ≤ n → pc.stage = 0) : Holds c fm' n := by
  rcases Nat.eq_zero_or_pos n with rfl | hn
  · exact .zero
  have hzero := hstage hn
  cases h with
  | quiet => exact ⟨hc.inputModule, hc.inputSocket, hc.frameTask, hc.inputTask⟩
  | setInputModule =>
    have : n = 0 := by simpa [TaskPc.spares] using hspares
    omega
  | catchFrameTask =>
    have hn' : n < 4 ∨ n = 7 := by simpa [TaskPc.spares] using hspares
    refine ⟨by simpa using hc.inputModule, by simpa using hc.inputSocket, fun h3 => ?_, ?_⟩
    · obtain ⟨t, ht, howner, _⟩ := hc.frameTask h3
      exact ⟨_, FrameModule.currentTask_on Task.stop fm ht, howner, by omega⟩
    · simpa using hc.inputTask
  | catchInputTask =>
    have hn' : n < 6 := by simpa [TaskPc.spares] using hspares
    refine ⟨by simpa using hc.inputModule, by simpa using hc.inputSocket, ?_, fun h5 => ?_⟩
    · simpa using hc.frameTask
    · obtain ⟨t, ht, hof, _⟩ := hc.inputTask h5
      exact ⟨_, FrameModule.currentInput_on Task.stop fm ht, hof, by omega⟩
  | _ => simp at hzero

/-- A call of `start` comes into a session by its first statement. -/
theorem Fields.stage_pos (h : Fields c fm pc fm' pc') (h' : 1 ≤ pc'.stage) :
    1 ≤ pc.stage ∨ pc = .frame .setInputModule := by
  cases h with
  | quiet _ _ _ _ _ hstage =>
    rcases hstage with hs | hs
    · exact Or.inl (hs ▸ h')
    · omega
  | setInputModule => exact Or.inr rfl
  | _ => simp at h' ⊢

theorem TaskPc.spares_zero (pc : TaskPc) : pc.spares 0 = true := by
  unfold TaskPc.spares
  split
  all_goals rfl

theorem Holds.beginFrameTask {i : Nat} (h : Holds c fm n) (hb : fm.beginFrameTask i = some fm') :
    Holds c fm' n := by
  refine ⟨fun h1 => ?_, fun h2 => ?_, fun h3 => ?_, fun h5 => ?_⟩
  · obtain ⟨_, _, _, _, rfl⟩ := FrameModule.beginFrameTask_cases hb
    exact h.inputModule h1
  · obtain ⟨_, _, _, _, rfl⟩ := FrameModule.beginFrameTask_cases hb
    exact h.inputSocket h2
  · obtain ⟨t, ht, howner, hrun⟩ := h.frameTask h3
    obtain ⟨task, htask, heq⟩ := FrameModule.currentTask_beginFrameTask hb ht
    exact ⟨_, htask, howner, fun h4 h6 => heq.trans (hrun h4 h6)⟩
  · obtain ⟨_, _, _, _, rfl⟩ := FrameModule.beginFrameTask_cases hb
    exact h.inputTask h5

theorem Holds.beginInputTask {i : Nat} (h : Holds c fm n) (hb : fm.beginInputTask i = some fm') :
    Holds c fm' n := by
  refine ⟨fun h1 => ?_, fun h2 => ?_, fun h3 => ?_, fun h5 => ?_⟩
  · obtain ⟨_, _, _, _, rfl⟩ := FrameModule.beginInputTask_cases hb
    exact h.inputModule h1
  · obtain ⟨_, _, _, _, rfl⟩ := FrameModule.beginInputTask_cases hb
    exact h.inputSocket h2
  · obtain ⟨_, _, _, _, rfl⟩ := FrameModule.beginInputTask_cases hb
    exact h.frameTask h3
  · obtain ⟨t, ht, hof, hrun⟩ := h.inputTask h5
    obtain ⟨task, htask, heq⟩ := FrameModule.currentInput_beginInputTask hb ht
    exact ⟨_, htask, hof, fun h6 => heq.trans (hrun h6)⟩

theorem Holds.stop (h : Holds c fm n) : Holds c fm.stop n := by
  unfold FrameModule.stop
  split_ifs
  · exact ⟨h.inputModule, h.inputSocket, h.frameTask, h.inputTask⟩
  · exact h

end Operation

/-! ### All connections -/

namespace Host

variable {stack c : Nat} {s t : Host} {l : Label}

/-- One connection at most is inside a session, and each has in the fields what it put
there. -/
structure Sessions (s : Host) : Prop where
  loop : ∀ c, c ∉ s.accepted → s.tasks c = .loop
  one : ∀ c d, 1 ≤ (s.tasks c).stage → 1 ≤ (s.tasks d).stage → c = d
  holds : ∀ c, Holds c s.memory.frame (s.tasks c).stage

theorem Sessions.spares (h : Sessions s) {r : Reply Env} (hok : Apart (.task c r) s) (d : Nat) :
    (s.tasks c).spares (s.tasks d).stage = true := by
  by_cases hd : d ∈ s.accepted
  · exact hok d hd
  · rw [h.loop d hd]
    exact TaskPc.spares_zero _

theorem Sessions.stepTask {r : Reply Env} (h : Sessions s) (hok : Apart (.task c r) s)
    (hst : Host.step stack (.task c r) s = some t) : Sessions t := by
  have hspares := h.spares hok
  obtain ⟨hc, m, pc, hexec, rfl⟩ := step_task hst
  have hfields := taskOp_fields hexec
  have hself : ((s.advance stack c r m pc).tasks c).stage = pc.stage ∨
      ((s.advance stack c r m pc).tasks c).stage = 0 := by
    rw [tasks_advance]
    exact TaskPc.stage_onStack stack pc
  have hother : ∀ {d}, d ≠ c → (s.advance stack c r m pc).tasks d = s.tasks d :=
    fun hd => tasks_advance_of_ne m pc hd
  -- while this connection goes on in a session nobody else is in one
  have halone : 1 ≤ ((s.advance stack c r m pc).tasks c).stage → ∀ d, 1 ≤ (s.tasks d).stage →
      d = c := by
    intro hpos d hd
    have hpos : 1 ≤ pc.stage := by omega
    rcases hfields.stage_pos hpos with hpc | hpc
    · exact h.one d c hd hpc
    · have hzero := hspares d
      rw [hpc] at hzero
      have hd0 : (s.tasks d).stage = 0 := of_decide_eq_true hzero
      omega
  refine ⟨fun d hd => ?_, fun d e hd he => ?_, fun d => ?_⟩
  · have hne : d ≠ c := fun heq => hd (heq.symm ▸ hc)
    rw [hother hne]
    exact h.loop d hd
  · by_cases hdc : d = c
    · by_cases hec : e = c
      · rw [hdc, hec]
      · rw [hother hec] at he
        rw [hdc] at hd ⊢
        exact (halone hd e he).symm
    · by_cases hec : e = c
      · rw [hother hdc] at hd
        rw [hec] at he ⊢
        exact halone he d hd
      · rw [hother hdc] at hd
        rw [hother hec] at he
        exact h.one d e hd he
  · by_cases hdc : d = c
    · rw [hdc]
      exact (hfields.holds (h.holds c)).of_stage hself
    · rw [hother hdc]
      refine hfields.holds_of_ne (h.holds d) (hspares d) (fun hd => ?_)
      by_contra hpos
      exact hdc (h.one d c hd (Nat.pos_of_ne_zero hpos))

theorem Sessions.step (h : Sessions s) (hok : Apart l s) (hst : Host.step stack l s = some t) :
    Sessions t := by
  cases l with
  | accept c =>
    rw [Host.step] at hst
    split_ifs at hst
    cases hst
    exact ⟨fun d hd => h.loop d fun hd' => hd (List.mem_cons_of_mem c hd'), h.one, h.holds⟩
  | task c r => exact h.stepTask hok hst
  | beginFrameTask i =>
    obtain ⟨fm, hfm, rfl⟩ := Option.map_eq_some_iff.mp hst
    exact ⟨h.loop, h.one, fun c => (h.holds c).beginFrameTask hfm⟩
  | beginInputTask i =>
    obtain ⟨fm, hfm, rfl⟩ := Option.map_eq_some_iff.mp hst
    exact ⟨h.loop, h.one, fun c => (h.holds c).beginInputTask hfm⟩
  | updateFrame i =>
    obtain ⟨ft, _, rfl⟩ := Option.map_eq_some_iff.mp hst
    exact ⟨h.loop, h.one, h.holds⟩
  | destroy =>
    cases hst
    exact ⟨h.loop, h.one, fun c => (h.holds c).stop⟩
  | stop d =>
    cases hst
    exact ⟨h.loop, h.one, h.holds⟩
  | close d =>
    cases hst
    exact ⟨h.loop, h.one, h.holds⟩

theorem sessions (h : Reach (step stack) Apart {} s) : Sessions s := by
  have hinit : Sessions {} := by
    refine ⟨fun _ _ => rfl, fun _ _ hc => ?_, fun _ => .zero⟩
    simp at hc
  exact h.invariant hinit (fun _ _ _ hs hok hst => hs.step hok hst)

/-- **A session is isolated from other connections** as long as none of them begins a call
of `start` while it lasts, or stops its tasks with a call that fails: its tasks run, the
fields are its own, and the stop `ACK` stops its own tasks. -/
theorem session_isolated (h : Reach (step stack) Apart {} s) (c : Nat) :
    ((s.tasks c).streams = true → Isolated c s.memory.frame) ∧
      (s.tasks c = .frame .stopInputTask →
        ∃ t, s.memory.frame.currentInput = some t ∧ t.IsOf c) := by
  have hc := (sessions h).holds c
  constructor
  · intro hstreams
    have hstage : (s.tasks c).stage = 6 := by
      generalize s.tasks c = pc at hstreams ⊢
      unfold TaskPc.streams at hstreams
      split at hstreams
      · rfl
      · rfl
      · rfl
      · cases hstreams
    rw [hstage] at hc
    exact hc.isolated
  · intro hpc
    rw [hpc] at hc
    obtain ⟨u, hu, hof, _⟩ := hc.inputTask (by decide)
    exact ⟨u, hu, hof⟩

/-- What connection `c` does up to the answer after `init`, where native `init` gives
`screen`. -/
def initialized (c : Nat) (screen : Int) : List Label :=
  request c 0x00 0x00 0x9C 0x40 ++
    [.task c (.env env), .task c (.env env), .task c (.env env), .task c (.done true),
      .task c (.done true), .task c (.done true), .task c (.done true), .task c (.env env),
      .task c (.env env), .task c (.env env), .task c (.done true),
      .task c (.env { env with screen }), .task c (.env env), .task c (.env env),
      .task c (.done true)]

/-- It is sent the start `ACK`. -/
def streaming (c : Nat) : List Label :=
  initialized c 7 ++
    [.task c (.read (.byte ack)), .task c (.env env), .task c (.env env), .task c (.env env)]

/-- Connection `0` streams, and connection `1` is in its input module. -/
theorem session_isolated_one : ∃ s : Host, s.tasks 0 = .frame .parse ∧
    s.tasks 1 = .listen .ack [] ∧ Isolated 0 s.memory.frame := by
  obtain ⟨s, hs, hk⟩ := Reach.exists_of_run (show
    (run (fun l s => if Apart l s then step 9 l s else none)
      (streaming 0 ++ [.accept 1, .task 1 (.env env), .task 1 (.read (.byte moduleInput))])
      {}).map (fun s => (s.tasks 0, s.tasks 1)) =
      some (.frame .parse, .listen .ack []) by decide +kernel)
  simp only [Prod.mk.injEq] at hk
  exact ⟨s, hk.1, hk.2, (session_isolated hs 0).1 (by rw [hk.1]; rfl)⟩

/-- **A second connection takes the session's `inputModule` away** by asking for the
module. -/
theorem session_disturbed : ¬ ∀ stack s, Reach (step stack) (fun _ _ => True) {} s →
    ∀ c, (s.tasks c).streams = true → Isolated c s.memory.frame := by
  intro hclaim
  obtain ⟨s, hs, hk⟩ := Reach.exists_of_run (show
    (run (fun l s => if True then step 9 l s else none)
      (streaming 0 ++ [.accept 1, .task 1 (.env env), .task 1 (.read (.byte moduleFrame)),
        .task 1 (.env env)]) {}).map (fun s => (s.tasks 0, s.memory.frame.inputModule)) =
      some (.frame .parse, some 1) by decide +kernel)
  simp only [Prod.mk.injEq] at hk
  have hmodule := (hclaim 9 s hs 0 (by rw [hk.1]; rfl)).inputModule
  rw [hk.2] at hmodule
  cases hmodule

end Host

end MikaAudio.Server
