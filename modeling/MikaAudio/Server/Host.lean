import MikaAudio.Server.Communication
import Mathlib.Logic.Function.Basic

/-!
# The server with all its threads

`Host` is the memory with every `CommunicationTask` on it, the threads of the frame and
input tasks they start, and the manager that shuts them down.  `stack` calls of the private
`start` fit on a thread's stack (`TaskPc.onStack`); one more is a `StackOverflowError`,
which nobody catches.

A call of `FrameModule.start` fills the shared fields one after the other.  `stage` says
how far it has come, and `Fields` is all that one operation of a connection can do to
them; what is proved about sessions uses `taskOp_fields` and never opens `startOp` for
this again.
-/

namespace MikaAudio.Server

open Thread

/-! ### The stages of a call of `start` -/

/-- The fields that hold what this call of `start` needs later: from `1` on `inputModule`,
from `2` on `inputSocket` and `inputPacket`, from `3` on `frameTask`, which is started
from `4` on, from `5` on `inputTask`, which is started from `6` on; at `7` the frame task
is stopped.  A call that comes to no session any more needs none. -/
@[simp] def FramePc.stage : FramePc → Nat
  | .setInputModule => 0
  | .testConnected => 1
  | .ack => 1
  | .port _ => 1
  | .portTimeout => 1
  | .newFramePacket _ => 1
  | .newInputSocket _ => 1
  | .getInputPort _ => 2
  | .writeInputPort _ _ => 2
  | .metrics _ => 2
  | .fillPacket _ => 2
  | .sendPacket _ _ => 2
  | .nativeInit _ => 2
  | .newFrameTask _ => 2
  | .testInstance => 3
  | .initAck => 3
  | .initReject => 0
  | .clearConnected => 0
  | .startWait _ => 3
  | .startTimeout => 0
  | .startFrameTask => 3
  | .newInputTask => 4
  | .startInputTask => 5
  | .parse => 6
  | .parseTimeout => 6
  | .stopFrameTask => 6
  | .stopInputTask => 7
  | .busyReject => 0
  | .catchFrameTask => 0
  | .catchInputTask => 0

/-- The same for a whole connection. -/
@[simp] def TaskPc.stage : TaskPc → Nat
  | .frame pc => pc.stage
  | _ => 0

/-- **All an operation of connection `c` can do** to the fields of the `FrameModule`, with
where it goes on. -/
inductive Fields (c : Nat) (fm : FrameModule) : TaskPc → FrameModule → TaskPc → Prop
  /-- Nothing that another operation relies on. -/
  | quiet {pc pc' : TaskPc} (connected : Bool) (instancePtr : Int) (width height : JInt)
      (hconnected : connected = true → fm.connected = true)
      (hstage : pc'.stage = pc.stage ∨ pc'.stage = 0) :
      Fields c fm pc
        { fm with
          connected := connected
          instancePtr := instancePtr
          screenWidth := width
          screenHeight := height } pc'
  | setInputModule :
      Fields c fm (.frame .setInputModule) { fm with inputModule := some c }
        (.frame .testConnected)
  | newInputSocket (p port : JInt) :
      Fields c fm (.frame (.newInputSocket p))
        { fm with inputSocket := some ⟨c, port⟩, inputPacket := some c }
        (.frame (.getInputPort p))
  | newFrameTask (p : JInt) :
      Fields c fm (.frame (.newFrameTask p))
        { fm with
          frameTasks := fm.frameTasks ++
            [⟨c, fm.instancePtr, p, fm.screenWidth, fm.screenHeight, {}⟩]
          frameTask := some fm.frameTasks.length }
        (.frame .testInstance)
  | startFrameTask :
      Fields c fm (.frame .startFrameTask) (fm.onFrameTask Task.start) (.frame .newInputTask)
  | newInputTask :
      Fields c fm (.frame .newInputTask)
        { fm with
          inputTasks := fm.inputTasks ++ [⟨c, fm.inputSocket, fm.inputPacket, fm.inputModule,
            fm.screenWidth, fm.screenHeight, {}⟩]
          inputTask := some fm.inputTasks.length }
        (.frame .startInputTask)
  | startInputTask :
      Fields c fm (.frame .startInputTask) (fm.onInputTask Task.start) (.frame .parse)
  | stopFrameTask :
      Fields c fm (.frame .stopFrameTask) (fm.onFrameTask Task.stop) (.frame .stopInputTask)
  | stopInputTask :
      Fields c fm (.frame .stopInputTask) (fm.onInputTask Task.stop) .loop
  | catchFrameTask :
      Fields c fm (.frame .catchFrameTask) (fm.onFrameTask Task.stop) (.frame .catchInputTask)
  | catchInputTask :
      Fields c fm (.frame .catchInputTask) (fm.onInputTask Task.stop) (.closeStreams false)

section Operation

variable {c : Nat} {pc pc' : TaskPc} {r : Reply Env} {m m' : Memory}

theorem Fields.same {fm : FrameModule} (h : pc'.stage = pc.stage ∨ pc'.stage = 0) :
    Fields c fm pc fm pc' :=
  .quiet fm.connected fm.instancePtr fm.screenWidth fm.screenHeight id h

theorem taskOp_read_stage {k : Read → TaskPc} (h : taskOp c pc = .read k) (x : Read) :
    (k x).stage = pc.stage ∨ (k x).stage = 0 := by
  cases pc with
  | module =>
    cases h
    cases x with
    | byte =>
      simp only [TaskPc.ofModule]
      split_ifs
      all_goals exact Or.inr rfl
    | _ =>
      exact Or.inr rfl
  | listen pc s =>
    cases pc with
    | mode | key =>
      cases h
      cases x with
      | _ => exact Or.inr rfl
    | _ => cases h
  | frame pc =>
    cases pc with
    | writeInputPort p bs =>
      cases bs
      · cases h
      · cases h
    | port bs =>
      cases h
      cases x with
      | timeout =>
        exact Or.inl rfl
      | error =>
        exact Or.inr rfl
      | _ =>
        simp only [FramePc.ofPortBytes]
        split_ifs
        · exact Or.inl rfl
        · exact Or.inl rfl
    | startWait d =>
      cases h
      cases x with
      | byte =>
        dsimp only
        split_ifs
        · exact Or.inl rfl
        · exact Or.inl rfl
      | eof =>
        exact Or.inl rfl
      | _ =>
        exact Or.inr rfl
    | parse =>
      cases h
      cases x with
      | byte =>
        dsimp only
        split_ifs
        · exact Or.inl rfl
        · exact Or.inl rfl
      | error =>
        exact Or.inr rfl
      | _ =>
        exact Or.inl rfl
    | _ => cases h
  | _ => cases h

theorem startOp_fields {pc : FramePc} (h : (taskOp c (.frame pc)).exec r m = some (m', pc')) :
    Fields c m.frame (.frame pc) m'.frame pc' ∧ m' = { m with frame := m'.frame } := by
  cases pc with
  | setInputModule =>
    obtain ⟨_, rfl, hf⟩ := Op.exec_act h
    cases hf
    exact ⟨.setInputModule, rfl⟩
  | newInputSocket p =>
    obtain ⟨_, rfl, hf⟩ := Op.exec_act h
    split_ifs at hf
    · cases hf
      exact ⟨.newInputSocket p _, rfl⟩
    · cases hf
      exact ⟨.same (Or.inr rfl), rfl⟩
  | newFrameTask p =>
    obtain ⟨_, rfl, hf⟩ := Op.exec_act h
    split_ifs at hf
    · cases hf
      exact ⟨.newFrameTask p, rfl⟩
    · cases hf
      exact ⟨.same (Or.inr rfl), rfl⟩
  | startFrameTask =>
    obtain ⟨_, rfl, hf⟩ := Op.exec_act h
    cases hf
    exact ⟨.startFrameTask, rfl⟩
  | newInputTask =>
    obtain ⟨_, rfl, hf⟩ := Op.exec_act h
    cases hf
    exact ⟨.newInputTask, rfl⟩
  | startInputTask =>
    obtain ⟨_, rfl, hf⟩ := Op.exec_act h
    cases hf
    exact ⟨.startInputTask, rfl⟩
  | stopFrameTask =>
    obtain ⟨_, rfl, hf⟩ := Op.exec_act h
    cases hf
    exact ⟨.stopFrameTask, rfl⟩
  | stopInputTask =>
    obtain ⟨_, rfl, hf⟩ := Op.exec_act h
    cases hf
    exact ⟨.stopInputTask, rfl⟩
  | catchFrameTask =>
    obtain ⟨_, rfl, hf⟩ := Op.exec_act h
    cases hf
    exact ⟨.catchFrameTask, rfl⟩
  | catchInputTask =>
    obtain ⟨_, rfl, hf⟩ := Op.exec_act h
    cases hf
    exact ⟨.catchInputTask, rfl⟩
  | metrics p =>
    obtain ⟨_, rfl, hf⟩ := Op.exec_act h
    cases hf
    exact ⟨.quiet m.frame.connected m.frame.instancePtr _ _ id (Or.inl rfl), rfl⟩
  | nativeInit p =>
    obtain ⟨_, rfl, hf⟩ := Op.exec_act h
    cases hf
    exact ⟨.quiet m.frame.connected _ m.frame.screenWidth m.frame.screenHeight id (Or.inl rfl), rfl⟩
  | clearConnected =>
    obtain ⟨_, rfl, hf⟩ := Op.exec_act h
    cases hf
    exact ⟨.quiet false m.frame.instancePtr m.frame.screenWidth m.frame.screenHeight nofun
      (Or.inr rfl), rfl⟩
  | port bs =>
    obtain ⟨_, rfl, rfl, rfl⟩ := Op.exec_read h
    have hop : taskOp c (.frame (.port bs)) = .read _ := rfl
    exact ⟨.same (taskOp_read_stage hop _), rfl⟩
  | startWait d =>
    obtain ⟨_, rfl, rfl, rfl⟩ := Op.exec_read h
    have hop : taskOp c (.frame (.startWait d)) = .read _ := rfl
    exact ⟨.same (taskOp_read_stage hop _), rfl⟩
  | parse =>
    obtain ⟨_, rfl, rfl, rfl⟩ := Op.exec_read h
    have hop : taskOp c (.frame .parse) = .read _ := rfl
    exact ⟨.same (taskOp_read_stage hop _), rfl⟩
  | writeInputPort p bs =>
    cases bs with
    | nil =>
      obtain ⟨_, rfl, hf⟩ := Op.exec_act h
      cases hf
      exact ⟨.same (Or.inl rfl), rfl⟩
    | cons =>
      obtain ⟨ok, rfl, rfl, rfl⟩ := Op.exec_write h
      cases ok
      · exact ⟨.same (Or.inr rfl), rfl⟩
      · exact ⟨.same (Or.inl rfl), rfl⟩
  | newFramePacket p =>
    obtain ⟨_, rfl, hf⟩ := Op.exec_act h
    split_ifs at hf
    · cases hf
      exact ⟨.same (Or.inl rfl), rfl⟩
    · cases hf
      exact ⟨.same (Or.inr rfl), rfl⟩
    · cases hf
      exact ⟨.same (Or.inr rfl), rfl⟩
  | fillPacket =>
    obtain ⟨_, rfl, hf⟩ := Op.exec_act h
    cases hf
    exact ⟨.same (Or.inl rfl), rfl⟩
  | getInputPort =>
    obtain ⟨_, rfl, hf⟩ := Op.exec_act h
    cases hf
    cases m.frame.inputSocket with
    | some => exact ⟨.same (Or.inl rfl), rfl⟩
    | none => exact ⟨.same (Or.inr rfl), rfl⟩
  | testConnected =>
    obtain ⟨_, rfl, hf⟩ := Op.exec_act h
    cases hf
    split_ifs
    · exact ⟨.same (Or.inr rfl), rfl⟩
    · exact ⟨.same (Or.inl rfl), rfl⟩
  | testInstance =>
    obtain ⟨_, rfl, hf⟩ := Op.exec_act h
    cases hf
    split_ifs
    · exact ⟨.same (Or.inl rfl), rfl⟩
    · exact ⟨.same (Or.inr rfl), rfl⟩
  | sendPacket =>
    obtain ⟨ok, rfl, rfl, rfl⟩ := Op.exec_send h
    cases ok with
    | true => exact ⟨.same (Or.inl rfl), rfl⟩
    | false => exact ⟨.same (Or.inr rfl), rfl⟩
  | startTimeout | busyReject =>
    obtain ⟨ok, rfl, rfl, rfl⟩ := Op.exec_write h
    cases ok with
    | true => exact ⟨.same (Or.inr rfl), rfl⟩
    | false => exact ⟨.same (Or.inr rfl), rfl⟩
  | _ =>
    obtain ⟨ok, rfl, rfl, rfl⟩ := Op.exec_write h
    cases ok with
    | true => exact ⟨.same (Or.inl rfl), rfl⟩
    | false => exact ⟨.same (Or.inr rfl), rfl⟩

theorem taskOp_fields (h : (taskOp c pc).exec r m = some (m', pc')) :
    Fields c m.frame pc m'.frame pc' := by
  cases pc with
  | frame pc => exact (startOp_fields h).1
  | module =>
    obtain ⟨_, rfl, rfl, rfl⟩ := Op.exec_read h
    have hop : taskOp c .module = .read _ := rfl
    exact .same (taskOp_read_stage hop _)
  | listen pc s =>
    cases pc with
    | mode | key =>
      obtain ⟨x, rfl, rfl, rfl⟩ := Op.exec_read h
      cases x with
      | _ => exact .same (Or.inr rfl)
    | text =>
      obtain ⟨x, rfl, rfl, rfl⟩ := Op.exec_readBuf h
      cases x with
      | _ => exact .same (Or.inr rfl)
    | dispatchKey | dispatchText =>
      obtain ⟨_, rfl, hf⟩ := Op.exec_act h
      cases hf
      exact .same (Or.inr rfl)
    | _ =>
      obtain ⟨ok, rfl, rfl, rfl⟩ := Op.exec_write h
      cases ok
      · exact .same (Or.inr rfl)
      · exact .same (Or.inr rfl)
  | moduleTimeout =>
    obtain ⟨ok, rfl, rfl, rfl⟩ := Op.exec_write h
    cases ok
    · exact .same (Or.inr rfl)
    · exact .same (Or.inr rfl)
  | exitAck =>
    obtain ⟨_, rfl, rfl, rfl⟩ := Op.exec_write h
    exact .same (Or.inr rfl)
  | loop | closeStreams =>
    obtain ⟨_, rfl, hf⟩ := Op.exec_act h
    cases hf
    refine .same (Or.inr ?_)
    split_ifs
    · rfl
    · rfl
  | done | dead => cases h
  | _ =>
    obtain ⟨_, rfl, hf⟩ := Op.exec_act h
    cases hf
    exact .same (Or.inr rfl)

end Operation

/-! ### The tasks in the fields -/

namespace FrameModule

variable (f : Task → Task) (fm : FrameModule)

theorem currentTask_new (t : FrameTask) :
    { fm with
      frameTasks := fm.frameTasks ++ [t]
      frameTask := some fm.frameTasks.length }.currentTask = some t := by
  simp [currentTask]

theorem currentInput_new (t : InputTask) :
    { fm with
      inputTasks := fm.inputTasks ++ [t]
      inputTask := some fm.inputTasks.length }.currentInput = some t := by
  simp [currentInput]

@[simp] theorem currentTask_onFrameTask :
    (fm.onFrameTask f).currentTask =
      fm.currentTask.map fun t => { t with task := f t.task } := by
  unfold onFrameTask currentTask
  cases h : fm.frameTask with
  | none => simp [h]
  | some i => simp

@[simp] theorem currentInput_onInputTask :
    (fm.onInputTask f).currentInput =
      fm.currentInput.map fun t => { t with task := f t.task } := by
  unfold onInputTask currentInput
  cases h : fm.inputTask with
  | none => simp [h]
  | some i => simp

@[simp] theorem currentInput_onFrameTask : (fm.onFrameTask f).currentInput = fm.currentInput := by
  unfold onFrameTask
  cases fm.frameTask
  · rfl
  · rfl

@[simp] theorem currentTask_onInputTask : (fm.onInputTask f).currentTask = fm.currentTask := by
  unfold onInputTask
  cases fm.inputTask
  · rfl
  · rfl

@[simp] theorem onFrameTask_frameTask : (fm.onFrameTask f).frameTask = fm.frameTask := by
  unfold onFrameTask
  cases h : fm.frameTask
  · simp [h]
  · simp

@[simp] theorem onFrameTask_inputTask : (fm.onFrameTask f).inputTask = fm.inputTask := by
  unfold onFrameTask
  cases fm.frameTask
  · rfl
  · rfl

@[simp] theorem onInputTask_frameTask : (fm.onInputTask f).frameTask = fm.frameTask := by
  unfold onInputTask
  cases fm.inputTask
  · rfl
  · rfl

@[simp] theorem onInputTask_inputTask : (fm.onInputTask f).inputTask = fm.inputTask := by
  unfold onInputTask
  cases h : fm.inputTask
  · simp [h]
  · simp

@[simp] theorem onFrameTask_inputModule : (fm.onFrameTask f).inputModule = fm.inputModule := by
  unfold onFrameTask
  cases fm.frameTask
  · rfl
  · rfl

@[simp] theorem onInputTask_inputModule : (fm.onInputTask f).inputModule = fm.inputModule := by
  unfold onInputTask
  cases fm.inputTask
  · rfl
  · rfl

@[simp] theorem onFrameTask_inputSocket : (fm.onFrameTask f).inputSocket = fm.inputSocket := by
  unfold onFrameTask
  cases fm.frameTask
  · rfl
  · rfl

@[simp] theorem onInputTask_inputSocket : (fm.onInputTask f).inputSocket = fm.inputSocket := by
  unfold onInputTask
  cases fm.inputTask
  · rfl
  · rfl

@[simp] theorem onFrameTask_inputPacket : (fm.onFrameTask f).inputPacket = fm.inputPacket := by
  unfold onFrameTask
  cases fm.frameTask
  · rfl
  · rfl

@[simp] theorem onInputTask_inputPacket : (fm.onInputTask f).inputPacket = fm.inputPacket := by
  unfold onInputTask
  cases fm.inputTask
  · rfl
  · rfl

theorem currentTask_on {t : FrameTask} (h : fm.currentTask = some t) :
    (fm.onFrameTask f).currentTask = some { t with task := f t.task } := by
  rw [currentTask_onFrameTask, h]
  rfl

theorem currentInput_on {t : InputTask} (h : fm.currentInput = some t) :
    (fm.onInputTask f).currentInput = some { t with task := f t.task } := by
  rw [currentInput_onInputTask, h]
  rfl

/-- A thread of the `i`-th frame task comes to `run()`. -/
def beginFrameTask (i : Nat) : Option FrameModule := do
  let t ← fm.frameTasks[i]?
  let task ← t.task.begin
  return { fm with frameTasks := fm.frameTasks.set i { t with task } }

/-- A thread of the `i`-th input task comes to `run()`. -/
def beginInputTask (i : Nat) : Option FrameModule := do
  let t ← fm.inputTasks[i]?
  let task ← t.task.begin
  return { fm with inputTasks := fm.inputTasks.set i { t with task } }

variable {fm} {fm' : FrameModule} {i : Nat}

theorem beginFrameTask_cases (h : fm.beginFrameTask i = some fm') :
    ∃ t task, fm.frameTasks[i]? = some t ∧ t.task.begin = some task ∧
      fm' = { fm with frameTasks := fm.frameTasks.set i { t with task } } := by
  simp only [beginFrameTask, Option.bind_eq_bind, Option.bind_eq_some_iff, Option.pure_def,
    Option.some.injEq] at h
  obtain ⟨t, ht, task, htask, rfl⟩ := h
  exact ⟨t, task, ht, htask, rfl⟩

theorem beginInputTask_cases (h : fm.beginInputTask i = some fm') :
    ∃ t task, fm.inputTasks[i]? = some t ∧ t.task.begin = some task ∧
      fm' = { fm with inputTasks := fm.inputTasks.set i { t with task } } := by
  simp only [beginInputTask, Option.bind_eq_bind, Option.bind_eq_some_iff, Option.pure_def,
    Option.some.injEq] at h
  obtain ⟨t, ht, task, htask, rfl⟩ := h
  exact ⟨t, task, ht, htask, rfl⟩

/-- A task that begins was running before, as it was still to begin. -/
theorem currentTask_beginFrameTask (h : fm.beginFrameTask i = some fm') {t : FrameTask}
    (ht : fm.currentTask = some t) :
    ∃ task, fm'.currentTask = some { t with task } ∧ task.isRunning = t.task.isRunning := by
  obtain ⟨u, task, hu, htask, rfl⟩ := beginFrameTask_cases h
  obtain ⟨j, hj, ht⟩ := Option.bind_eq_some_iff.mp ht
  by_cases hij : i = j
  · subst hij
    obtain rfl : u = t := Option.some.inj (hu.symm.trans ht)
    refine ⟨task, ?_, (Task.isRunning_begin htask).trans (Task.isRunning_of_begin htask).symm⟩
    have hlt := (List.getElem?_eq_some_iff.mp ht).1
    simp [currentTask, hj, hlt]
  · exact ⟨t.task, by simp [currentTask, hj, hij, ht], rfl⟩

theorem currentInput_beginInputTask (h : fm.beginInputTask i = some fm') {t : InputTask}
    (ht : fm.currentInput = some t) :
    ∃ task, fm'.currentInput = some { t with task } ∧ task.isRunning = t.task.isRunning := by
  obtain ⟨u, task, hu, htask, rfl⟩ := beginInputTask_cases h
  obtain ⟨j, hj, ht⟩ := Option.bind_eq_some_iff.mp ht
  by_cases hij : i = j
  · subst hij
    obtain rfl : u = t := Option.some.inj (hu.symm.trans ht)
    refine ⟨task, ?_, (Task.isRunning_begin htask).trans (Task.isRunning_of_begin htask).symm⟩
    have hlt := (List.getElem?_eq_some_iff.mp ht).1
    simp [currentInput, hj, hlt]
  · exact ⟨t.task, by simp [currentInput, hj, hij, ht], rfl⟩

end FrameModule

/-! ### All threads -/

/-- A call of one of the three native methods. -/
inductive NativeCall
  | init (screenPtr : Int)
  | updateFrame (screenPtr : Int)
  | destroy (screenPtr : Int)
  deriving DecidableEq

/-- What an operation calls. -/
def TaskPc.nativeCalls : TaskPc → Reply Env → List NativeCall
  | .frame (.nativeInit _), .env e => [.init e.screen]
  | _, _ => []

/-- The server.  A connection that is not yet `accepted` stands at the beginning of `run`.
`native` are all calls of native methods so far; the program does not keep them. -/
structure Host where
  memory : Memory := {}
  tasks : Nat → TaskPc := fun _ => .loop
  accepted : List Nat := []
  native : List NativeCall := []

namespace Host

/-- Who moves. -/
inductive Label
  /-- `addSocket` for connection `c`. -/
  | accept (c : Nat)
  /-- The thread of connection `c` makes its next operation, with this answer. -/
  | task (c : Nat) (r : Reply Env)
  /-- A thread of the `i`-th frame task comes to `run()`. -/
  | beginFrameTask (i : Nat)
  /-- A thread of the `i`-th input task comes to `run()`. -/
  | beginInputTask (i : Nat)
  /-- The `i`-th frame task calls `updateFrame`. -/
  | updateFrame (i : Nat)
  /-- `ModuleManager.onDestroy` calls `frameModule.onDestroy()`. -/
  | destroy
  /-- `CommunicationTask.onDestroy` clears `running`. -/
  | stop (c : Nat)
  /-- `CommunicationTask.onDestroy` closes the socket. -/
  | close (c : Nat)

/-- The thread of connection `c` goes on with `m` and `pc`. -/
def advance (stack c : Nat) (r : Reply Env) (m : Memory) (pc : TaskPc) (s : Host) : Host :=
  { s with
    memory := m
    tasks := Function.update s.tasks c (pc.onStack stack)
    native := s.native ++ (s.tasks c).nativeCalls r }

/-- The fields of the `FrameModule` change. -/
def onFrame (fm : FrameModule) (s : Host) : Host :=
  { s with memory := { s.memory with frame := fm } }

/-- One step of one thread. -/
def step (stack : Nat) (l : Label) (s : Host) : Option Host :=
  match l with
  | .accept c =>
    if c ∈ s.accepted then none
    else some { s with
      accepted := c :: s.accepted
      memory := { s.memory with connections := s.memory.connections ++ [c] } }
  | .task c r =>
    if c ∈ s.accepted then
      ((taskOp c (s.tasks c)).exec r s.memory).map fun next =>
        s.advance stack c r next.1 next.2
    else none
  | .beginFrameTask i => (s.memory.frame.beginFrameTask i).map s.onFrame
  | .beginInputTask i => (s.memory.frame.beginInputTask i).map s.onFrame
  | .updateFrame i =>
    s.memory.frame.frameTasks[i]?.map fun t =>
      { s with native := s.native ++ [.updateFrame t.screenPtr] }
  | .destroy =>
    some { s with
      memory := s.memory.onFrame FrameModule.stop
      native := s.native ++
        if s.memory.frame.connected then [.destroy s.memory.frame.instancePtr] else [] }
  | .stop c =>
    some { s with
      memory := { s.memory with running := Function.update s.memory.running c false } }
  | .close c => some { s with memory := { s.memory with closed := c :: s.memory.closed } }

variable {stack c : Nat} {r : Reply Env} {s t : Host}

theorem step_task (h : step stack (.task c r) s = some t) :
    c ∈ s.accepted ∧ ∃ m pc, (taskOp c (s.tasks c)).exec r s.memory = some (m, pc) ∧
      t = s.advance stack c r m pc := by
  rw [step] at h
  split_ifs at h with hc
  obtain ⟨⟨m, pc⟩, hexec, rfl⟩ := Option.map_eq_some_iff.mp h
  exact ⟨hc, m, pc, hexec, rfl⟩

theorem tasks_advance (m : Memory) (pc : TaskPc) :
    (s.advance stack c r m pc).tasks c = pc.onStack stack :=
  Function.update_self _ _ _

theorem tasks_advance_of_ne (m : Memory) (pc : TaskPc) {d : Nat} (h : d ≠ c) :
    (s.advance stack c r m pc).tasks d = s.tasks d :=
  Function.update_of_ne h _ _

theorem tasks_of_step {l : Label} (h : step stack l s = some t) (hl : ∀ r, l ≠ .task c r) :
    t.tasks c = s.tasks c := by
  cases l with
  | accept d =>
    rw [step] at h
    split_ifs at h
    cases h
    rfl
  | task d r =>
    obtain ⟨_, m, pc, _, rfl⟩ := step_task h
    refine tasks_advance_of_ne m pc ?_
    rintro rfl
    exact hl r rfl
  | beginFrameTask i =>
    obtain ⟨fm, _, rfl⟩ := Option.map_eq_some_iff.mp h
    rfl
  | beginInputTask i =>
    obtain ⟨fm, _, rfl⟩ := Option.map_eq_some_iff.mp h
    rfl
  | updateFrame i =>
    obtain ⟨ft, _, rfl⟩ := Option.map_eq_some_iff.mp h
    rfl
  | _ => cases h; rfl

end Host

theorem TaskPc.stage_onStack (stack : Nat) (pc : TaskPc) :
    (pc.onStack stack).stage = pc.stage ∨ (pc.onStack stack).stage = 0 := by
  unfold TaskPc.onStack
  split
  · split_ifs
    · exact Or.inl rfl
    · exact Or.inr rfl
  · exact Or.inl rfl

end MikaAudio.Server
